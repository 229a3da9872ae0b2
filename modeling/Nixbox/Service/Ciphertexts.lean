/-
The rows of the secrets, their ciphertext files and the index on disk. Creating writes the file and
then the row, deleting drops the row and leaves the file to the next apply, and any step may fail or be
the last before the process dies: whatever refers to a ciphertext finds it.
-/
import Nixbox.Lib.Crash
import Nixbox.Server.Sealing
import Nixbox.Service.Frames

namespace Nixbox

open Effect Prog Store Server Keyed Directory
open Nix hiding FlakeInput

/-! ## Definitions -/

/-- The entry `file` of secrets/ is a regular file. -/
def Disk.regular (d : Disk) (file : String) : Prop := ∃ ct, d.secrets.get? file = some (.file ct)

/-- Every secret has its ciphertext on disk, and so has every secret index.nix refers to. -/
structure State.Backed (s : State) : Prop where
  rows : ∀ x ∈ s.db.secrets, s.disk.regular (secretFile x.name)
  index : ∀ i, s.disk.indexNix = some i → ∀ x ∈ i.secrets, s.disk.regular (secretFile x.name)

/-- What happens next to a service whose process may die: a request is handled, the job takes a step or
the service is restarted; the process dies after some of the calls of a request and is started again;
or a file appears in secrets/, left by a write cut short or put there by hand. -/
inductive Turn
  | event (e : Event)
  | dies (r : Request) (faults : List Bool) (calls : Nat)
  | stray (file content : String)

namespace State

/-- A freshly initialised state directory whose secrets/ is not empty. -/
def freshOver (h : Host) (secrets : Dir SecretsEntry) : State :=
  { fresh h with disk.secrets := secrets }

/-- One turn: a step of the service, a request in which the process dies, or a file from elsewhere. -/
def turn (s : State) : Turn → Option State
  | .event e => s.step e
  | .dies r faults calls => some ((serve r).cutAt calls faults s).restart
  | .stray file content => some (s.writeSecret file content).2

end State

/-- What pruning leaves of `secrets/`: the regular .age files are those of the declared secrets, and every
entry but an orphan is as it was. -/
structure Swept (s t : State) : Prop where
  declared : ∀ file, Go.hasSuffix file ".age" = true ∧ t.disk.regular file ↔
    ∃ x ∈ s.db.secrets, file = secretFile x.name
  others : ∀ file, (∃ x ∈ s.db.secrets, file = secretFile x.name) ∨ Go.hasSuffix file ".age" = false ∨
    ¬ s.disk.regular file → t.disk.secrets.get? file = s.disk.secrets.get? file

/-! ## Names of rows -/

/-- The rows of the secrets after a statement have the names of those before it, and that of the one it
inserts. -/
theorem Write.run_secretNames {α : Type} {w : Write α} {now : Time} {db db' : Db} {a : α}
    (h : w.run now db = .ok (a, db')) {x : SecretRow} (hx : x ∈ db'.secrets) :
    (∃ y ∈ db.secrets, y.name = x.name) ∨ w.creates = some x.name := by
  by_cases hk : w.kind = .secretRow
  -- a statement of another kind leaves the table
  case neg =>
    rw [((Write.run_frame h).secrets hk).1] at hx
    exact .inl ⟨x, hx, rfl⟩
  cases w with
  | createSecret name owner group mode wids =>
    change db.createSecret name owner group mode wids now = _ at h
    obtain ⟨-, -, hrep⟩ := Db.createSecret_ok h
    obtain ⟨m, rfl⟩ := Db.replaceMounts_frame hrep
    rcases Table.mem_insert.1 hx with hx | rfl
    · exact .inl ⟨x, hx, rfl⟩
    · exact .inr rfl
  | updateSecret id owner group mode wids =>
    obtain ⟨m, rfl⟩ := Db.replaceMounts_frame (Db.unit_ok h)
    refine .inl (Table.exists_of_mem_modify ?_ ?_ hx)
    all_goals exact fun _ => rfl
  | insertMountOrIgnore =>
    obtain ⟨m, rfl⟩ := Db.insertMountOrIgnore_frame h
    exact .inl ⟨x, hx, rfl⟩
  | deleteMount =>
    cases h
    exact .inl ⟨x, hx, rfl⟩
  | touchSecret =>
    cases h
    refine .inl (Table.exists_of_mem_modify ?_ ?_ hx)
    all_goals exact fun _ => rfl
  | deleteSecret =>
    cases h
    exact .inl ⟨x, (Table.mem_deleteWhere.1 hx).1, rfl⟩
  | _ => cases hk

/-- The secrets of the index of the rows are rows. -/
theorem Store.Db.mem_index_secrets {db : Db} {x : IndexSecret} (hx : x ∈ db.index.secrets) :
    ∃ y ∈ db.secrets, y.name = x.name := by
  obtain ⟨y, hy, rfl⟩ := List.mem_map.1 hx
  obtain ⟨z, hz, rfl⟩ := List.mem_map.1 ((List.mem_insertionSort ..).1 hy)
  obtain ⟨row, hrow, rfl⟩ := List.mem_map.1 hz
  exact ⟨row, Db.mem_secretRows.1 hrow, rfl⟩

/-! ## Calls -/

section Calls

variable {s t : State}

theorem State.Backed.of (h : s.Backed) (hrows : ∀ x ∈ t.db.secrets, ∃ y ∈ s.db.secrets, y.name = x.name)
    (hindex : t.disk.indexNix = s.disk.indexNix)
    (hfiles : ∀ file, s.disk.regular file → t.disk.regular file) : t.Backed := by
  refine ⟨fun x hx => ?_, fun i hi x hx => ?_⟩
  · obtain ⟨y, hy, hname⟩ := hrows x hx
    rw [← hname]
    exact hfiles _ (h.rows y hy)
  · rw [hindex] at hi
    exact hfiles _ (h.index i hi x hx)

theorem State.Backed.same (h : s.Backed) (hrows : t.db.secrets = s.db.secrets)
    (hindex : t.disk.indexNix = s.disk.indexNix) (hfiles : t.disk.secrets = s.disk.secrets) : t.Backed := by
  refine h.of (fun x hx => ⟨x, by rwa [hrows] at hx, rfl⟩) hindex fun file hf => ?_
  unfold Disk.regular
  rw [hfiles]
  exact hf

/-- Writing a regular file makes it one, and unmakes none. -/
theorem regular_put {d : Disk} {file other ct : String} (h : other = file ∨ d.regular other) :
    Disk.regular { d with secrets := d.secrets.put file (.file ct) } other := by
  unfold Disk.regular
  dsimp only
  by_cases heq : other = file
  · subst heq
    exact ⟨ct, Dir.get?_put_self⟩
  · rw [Dir.get?_put_of_ne heq]
    exact h.resolve_left heq

theorem State.Backed.writeSecret (h : s.Backed) (file ct : String) : (s.writeSecret file ct).2.Backed := by
  rcases s.writeSecret_cases file ct with hw | hw
  · rw [hw]
    exact h
  · rw [hw]
    exact h.of (fun x hx => ⟨x, hx, rfl⟩) rfl fun _ hf => regular_put (.inr hf)

/-- A statement whose new row, if it inserts one, has its file. -/
theorem State.Backed.write {α : Type} (h : s.Backed) {w : Write α}
    (hnew : ∀ name, w.creates = some name → s.disk.regular (secretFile name)) : (s.write w).2.Backed := by
  obtain ⟨db, hs, hdb⟩ := s.write_cases w
  rw [hs]
  rcases hdb with rfl | ⟨a, hrun⟩
  · exact h.same rfl rfl rfl
  · refine ⟨fun x hx => ?_, h.index⟩
    rcases Write.run_secretNames hrun hx with ⟨y, hy, hname⟩ | hname
    · rw [← hname]
      exact h.rows y hy
    · exact hnew _ hname

/-- Every call other than the two of an apply keeps each ciphertext, as long as no row comes before its file. -/
theorem State.Backed.exec {β : Type} {op : Op β} (h : s.Backed) (hi : op.kind ≠ .index) (hp : op.kind ≠ .prune)
    (hnew : ∀ name, op.creates = some name → s.disk.regular (secretFile name)) : (s.exec op).2.Backed := by
  cases op with
  | write w => exact h.write hnew
  | writeSecret file ct => exact h.writeSecret file ct
  | writeIndex => exact absurd rfl hi
  | removeSecretFile => exact absurd rfl hp
  | _ => exact h.same rfl rfl rfl

end Calls

/-! ## Requests that neither regenerate nor prune -/

/-- What has just been written is there. -/
def Sealed.There (q : Sealed) (s : State) : Prop := ∀ file ct, q = .just file ct → s.disk.regular file

theorem Sealed.there_past {q : Sealed} {s : State} : q.past.There s := fun _ _ h => absurd h Sealed.past_ne

theorem sealing_there {β : Type} {op : Op β} {q : Sealed} {s : State}
    (hi : op.kind ≠ .index) (hp : op.kind ≠ .prune) (hallow : sealing.allows q op) (h : s.Backed ∧ q.There s) :
    ((s.exec op).2.Backed ∧ (sealing.next q op (s.exec op).1).There (s.exec op).2) ∧
      ∀ b, op.fault = some b → s.Backed ∧ (sealing.next q op b).There s := by
  have hnew : ∀ name, op.creates = some name → s.disk.regular (secretFile name) := by
    intro name hname
    obtain ⟨ct, hq⟩ := sealing_creates hallow hname
    exact h.2 _ ct hq
  have hbacked := h.1.exec hi hp hnew
  cases op with
  | writeSecret file ct =>
    refine ⟨⟨hbacked, ?_⟩, fun b hb => ⟨h.1, ?_⟩⟩
    · rw [show s.exec (.writeSecret file ct) = s.writeSecret file ct from rfl]
      rcases s.writeSecret_cases file ct with hw | hw
      · rw [hw]
        exact Sealed.there_past
      · rw [hw]
        intro f c hq
        cases hq
        exact regular_put (.inl rfl)
    · cases hb
      exact Sealed.there_past
  | _ => exact ⟨⟨hbacked, Sealed.there_past⟩, fun _ _ => ⟨h.1, Sealed.there_past⟩⟩

/-- Whichever of their calls fail, and wherever they are cut short. -/
theorem throughout_backed {r : Request} (hi : .index ∉ r.kinds) (hp : .prune ∉ r.kinds) {s : State} (h : s.Backed) :
    (serve r).Throughout State.Backed (fun _ _ => True) s := by
  have huses : (serve r).Uses fun _ op => op.kind ≠ .index ∧ op.kind ≠ .prune :=
    Uses.mono (serve_within r) fun _ op hop => ⟨fun heq => hi (heq ▸ hop), fun heq => hp (heq ▸ hop)⟩
  have hthrough := Keeps.throughout (J := fun q s => s.Backed ∧ q.There s)
    (fun _ _ _ _ hop hallow hj => sealing_there hop.1 hop.2 hallow hj) (serve_sealing r) huses ⟨h, nofun⟩
  exact hthrough.weaken fun _ ⟨_, hs⟩ => hs.1

/-! ## Regenerating and pruning -/

section Applies

variable {α ε : Type} {s : State} {ks : List Kind}

/-- What holds after a program, if it has not stopped early. -/
abbrev Kept (Q : α → State → Prop) (x : ExceptT ε (Prog Op) α) (s : State) : Prop :=
  Throughout State.Backed (OnOk Q) x.run s

theorem within_kept {x : ExceptT ε (Prog Op) α} (hx : Within ks x.run) (hi : .index ∉ ks) (hp : .prune ∉ ks)
    (hr : .secretRow ∉ ks) (h : s.Backed) : Kept (fun _ _ => True) x s := by
  refine (throughout_of_uses (fun β op t hop ht => ?_) hx h).mono fun _ _ _ _ _ _ => trivial
  have hne : ∀ {k : Kind}, k ∉ ks → op.kind ≠ k := fun hn heq => hn (heq ▸ hop)
  exact ht.exec (hne hi) (hne hp) fun name hname => (nomatch hname.symm.trans (creates_of_kind (hne hr)))

/-- Reading keeps the state. -/
theorem reads_kept {P : α → Prop} {x : ExceptT ε (Prog Op) α} (hx : Within [.read] x.run) (hr : Reads P x s)
    (h : s.Backed) : Kept (fun a t => t = s ∧ P a) x s := by
  have hkept := within_kept hx (by decide) (by decide) (by decide) h
  exact (hkept.and_ends hr).mono fun _ _ _ hq a ha => ⟨hq.2.1, hq.2.2 a ha⟩

theorem State.Backed.reindexed (h : s.Backed) : s.reindexed.Backed := by
  refine ⟨h.rows, fun i hi x hx => ?_⟩
  cases hi
  obtain ⟨y, hy, hname⟩ := Db.mem_index_secrets hx
  rw [← hname]
  exact h.rows y hy

theorem regenerateIndex_kept (h : s.Backed) : Kept (fun _ t => t = s.reindexed) regenerateIndex s := by
  refine Throughout.seqOk (reads_kept (within_query (by decide)) reads_query_ok h) fun ws t _ hws => ?_
  obtain ⟨rfl, rfl⟩ := hws
  have hentry : ∀ w, Within [.read] (indexEntry w).run := fun _ =>
    within_bind (within_query (by decide)) fun _ => within_pure _
  refine Throughout.seqOk (reads_kept (within_forEach hentry) (reads_indexEntries t) h) fun es t _ hes => ?_
  obtain ⟨rfl, rfl⟩ := hes
  have hsecrets : Within [.read] (indexSecrets t.db.workloadList).run :=
    within_bind (secrets_within (by decide)) fun _ => within_pure _
  refine Throughout.seqOk (reads_kept hsecrets (reads_indexSecrets t) h) fun secs t _ hsecs => ?_
  obtain ⟨rfl, rfl⟩ := hsecs
  refine throughout_perform.2 ⟨h, ⟨h.reindexed, fun _ _ => rfl⟩, fun r hr => ⟨h, ?_⟩⟩
  cases hr
  exact nofun

theorem regenerateFlake_kept (h : s.Backed) : Kept (fun _ t => t = s.reflaked) regenerateFlake s := by
  have hks : Within [.read, .flake] regenerateFlake.run := regenerateFlake_within (by decide) (by decide)
  refine ((within_kept hks (by decide) (by decide) (by decide) h).and_ends (regenerateFlake_ends s)).mono ?_
  rintro r t - ⟨-, ⟨-, ht⟩ | ⟨⟨e, rfl⟩, -⟩⟩
  · exact fun _ _ => ht
  · exact nofun

/-- The calls of a pruning that spares the files of `keep`. -/
def spares (keep : List String) {β : Type} : Op β → Prop
  | .removeSecretFile file => file ∉ keep.map secretFile
  | op => op.kind = .read

/-- Whatever the directory holds when it is read. -/
theorem pruneSecrets_spares (keep : List String) : Uses (fun _ op => spares keep op) (pruneSecrets keep).run := by
  refine uses_exceptT_bind (uses_perform rfl) fun entries => uses_exceptT_bind ?_ fun _ => uses_return _
  refine uses_forEach fun e he => uses_perform fun hmem => ?_
  have horphan := (List.mem_filter.1 he).2
  unfold orphan at horphan
  rw [List.contains_iff_mem.2 hmem] at horphan
  simp at horphan

/-- Once index.nix declares the rows and no other secret, pruning the files of the others is safe. -/
theorem pruneSecrets_kept (h : s.Backed) (hindex : s.disk.indexNix = some s.db.index) :
    Kept (fun _ _ => True) (pruneSecrets s.keptSecrets) s := by
  have hthrough := throughout_of_uses (I := fun t : State => t.db = s.db ∧ t.disk.indexNix = some s.db.index ∧
      ∀ x ∈ s.db.secrets, t.disk.regular (secretFile x.name)) (fun β op t hop ht => ?_)
    (pruneSecrets_spares s.keptSecrets) ⟨rfl, hindex, h.rows⟩
  · refine (hthrough.weaken fun t ht => ?_).mono fun _ _ _ _ _ _ => trivial
    obtain ⟨hdb, hi, hfiles⟩ := ht
    refine ⟨fun x hx => hfiles x (hdb ▸ hx), fun i hi' x hx => ?_⟩
    rw [hi] at hi'
    cases hi'
    obtain ⟨y, hy, hname⟩ := Db.mem_index_secrets hx
    rw [← hname]
    exact hfiles y hy
  · cases op with
    | removeSecretFile file =>
      refine ⟨ht.1, ht.2.1, fun x hx => ?_⟩
      obtain ⟨ct, hct⟩ := ht.2.2 x hx
      refine ⟨ct, ?_⟩
      have hne : secretFile x.name ≠ file := fun heq => hop (heq ▸ mem_keptSecrets hx)
      exact (Dir.get?_remove_of_ne hne).trans hct
    | write w => cases w <;> exact nomatch hop
    | query | checkSyntax | encrypt | readSecretsDir => exact ht
    | _ => exact nomatch hop

theorem prepareApply_kept (h : s.Backed) : Kept (fun _ _ => True) prepareApply s := by
  refine Throughout.seqOk (regenerateIndex_kept h) fun _ t ht hs => ?_
  subst hs
  refine Throughout.seqOk (regenerateFlake_kept ht) fun _ t ht hs => ?_
  have hindex : t.disk.indexNix = some t.db.index := by
    rw [hs]
    rfl
  clear hs
  -- what is left reads until the pruning
  refine Throughout.seqOk (reads_kept (within_query (by decide)) reads_query_ok ht) fun ws u _ hws => ?_
  obtain ⟨rfl, rfl⟩ := hws
  have hsnap : ∀ ws, Within [.read] (forEach snapshotRevision ws).run := fun _ =>
    within_forEach fun _ => within_bind (within_query (by decide)) fun _ => within_pure _
  refine Throughout.seqOk (reads_kept (hsnap _) (reads_revisionSnapshot u) ht) fun applied t _ ha => ?_
  obtain ⟨rfl, -⟩ := ha
  refine Throughout.seqOk (reads_kept (within_query (by decide)) reads_query_ok ht) fun ins u _ hins => ?_
  obtain ⟨rfl, -⟩ := hins
  refine Throughout.seqOk (reads_kept (secrets_within (by decide)) reads_secrets ht) fun secs t _ hsecs => ?_
  obtain ⟨rfl, rfl⟩ := hsecs
  exact Throughout.seqOk (pruneSecrets_kept ht hindex) fun _ _ hu _ => throughout_return hu trivial

/-! ## Requests for a job -/

theorem start_kept (kind : JobKind) (wid : Option ID) (fn : JobFn) (h : s.Backed) :
    Kept (fun _ _ => True) (Jobs.start kind wid fn) s := by
  have hks : Within [.read, .jobRow, .slot] (Jobs.start kind wid fn).run :=
    start_within (by decide) (by decide) (by decide) kind wid fn
  exact within_kept hks (by decide) (by decide) (by decide) h

theorem startApply_kept (wid : Option ID) (mode : RebuildMode) (h : s.Backed) :
    Kept (fun _ _ => True) (startApply wid mode) s :=
  Throughout.seqOk (throughout_adapt (prepareApply_kept h)) fun _ _ ht _ => start_kept _ _ _ ht

theorem answerJob_kept {page : String} {x : ExceptT Jobs.StartError (Prog Op) Job}
    (hx : Kept (fun _ _ => True) x s) : Kept (fun _ _ => True) (answerJob page x) s := by
  have hattempt : Kept (fun _ _ => True) (attempt x : Handler (Except Jobs.StartError Job)) s :=
    throughout_lift (hx.mono fun _ _ _ _ => trivial)
  refine Throughout.seqOk hattempt fun r t ht _ => ?_
  match r with
  | .error .busy => exact throughout_throw ht
  | .error (.store _) => exact throughout_throw ht
  | .ok _ => exact throughout_return ht trivial

theorem lookupWorkload_kept (name : String) (h : s.Backed) : Kept (fun _ _ => True) (lookupWorkload name) s := by
  have hks : Within [.read] (lookupWorkload name).run := lookupWorkload_within (by decide) name
  exact within_kept hks (by decide) (by decide) (by decide) h

theorem handleWorkloadDestroy_kept (name confirm deleteData : String) (h : s.Backed) :
    Kept (fun _ _ => True) (handleWorkloadDestroy name confirm deleteData) s := by
  refine Throughout.seqOk (lookupWorkload_kept name h) fun wl t ht _ => ?_
  split
  · have hdisable : Within [.workloadRow] (orError (Store.setWorkloadEnabled wl.id false)).run :=
      orError_within (within_write (by simp))
    refine Throughout.seqOk (within_kept hdisable (by decide) (by decide) (by decide) ht) fun _ u hu _ => ?_
    refine Throughout.seqOk (throughout_adapt (regenerateIndex_kept hu)) fun _ v hv _ => ?_
    exact answerJob_kept (start_kept _ _ _ hv)
  · exact throughout_throw ht

/-- Between any two calls of a request, whichever have failed, every ciphertext is there. -/
theorem serve_throughout (r : Request) (h : s.Backed) : (serve r).Throughout State.Backed (fun _ _ => True) s := by
  have hanswer : ∀ {x : Handler Response}, Kept (fun _ _ => True) x s →
      x.answer.Throughout State.Backed (fun _ _ => True) s := by
    intro x hx
    refine hx.seq fun r t ht _ => ?_
    cases r with
    | ok _ => exact throughout_pure.2 ⟨ht, trivial⟩
    | error _ => exact throughout_pure.2 ⟨ht, trivial⟩
  cases r with
  | workloadApply name mode =>
    exact hanswer (Throughout.seqOk (lookupWorkload_kept name h) fun _ _ ht _ =>
      answerJob_kept (startApply_kept _ _ ht))
  | flakeApply mode | secretApply mode => exact hanswer (answerJob_kept (startApply_kept _ _ h))
  | rebuild => exact hanswer (answerJob_kept (startApply_kept _ _ h))
  | workloadDestroy name confirm deleteData => exact hanswer (handleWorkloadDestroy_kept name confirm deleteData h)
  | _ =>
    refine throughout_backed ?_ ?_ h
    all_goals simp

end Applies

/-! ## What pruning leaves -/

section Swept

variable {s : State} {file : String}

theorem hasSuffix_secretFile (name : String) : Go.hasSuffix (secretFile name) ".age" = true := by
  unfold Go.hasSuffix secretFile
  rw [String.toList_append, List.isSuffixOf_iff_suffix]
  exact List.suffix_append _ _

/-- The entries that pruning removes. -/
theorem mem_orphans {keep : List String} {d : Disk} :
    file ∈ (d.secrets.entries.filter (orphan keep)).map Prod.fst ↔
      d.regular file ∧ Go.hasSuffix file ".age" = true ∧ file ∉ keep.map secretFile := by
  constructor
  · intro hmem
    obtain ⟨⟨n, e⟩, he, rfl⟩ := List.mem_map.1 hmem
    obtain ⟨hin, ho⟩ := List.mem_filter.1 he
    unfold orphan at ho
    simp only [Bool.and_eq_true, bne_iff_ne, Bool.not_eq_true', List.contains_eq_mem, decide_eq_false_iff_not] at ho
    obtain ⟨⟨hdir, hage⟩, hnot⟩ := ho
    refine ⟨?_, hage, hnot⟩
    cases e with
    | file ct => exact ⟨ct, Dir.get?_of_mem hin⟩
    | dir => exact absurd rfl hdir
  · rintro ⟨⟨ct, hct⟩, hage, hnot⟩
    refine List.mem_map.2 ⟨(file, .file ct), List.mem_filter.2 ⟨Dir.mem_of_get? hct, ?_⟩, rfl⟩
    unfold orphan
    simp only [Bool.and_eq_true, bne_iff_ne, Bool.not_eq_true', List.contains_eq_mem, decide_eq_false_iff_not]
    exact ⟨⟨nofun, hage⟩, hnot⟩

theorem mem_keptSecrets_iff : file ∈ s.keptSecrets.map secretFile ↔
    ∃ x ∈ s.db.secrets, file = secretFile x.name := by
  constructor
  · intro hmem
    obtain ⟨name, hname, rfl⟩ := List.mem_map.1 hmem
    obtain ⟨sec, hsec, rfl⟩ := List.mem_map.1 hname
    obtain ⟨x, hx, rfl⟩ := List.mem_map.1 hsec
    exact ⟨x, Db.mem_secretRows.1 hx, rfl⟩
  · rintro ⟨x, hx, rfl⟩
    exact mem_keptSecrets hx

theorem State.Backed.swept (h : s.Backed) : Swept s s.prepared := by
  have hget : ∀ file, s.prepared.disk.secrets.get? file =
      if file ∈ (s.disk.secrets.entries.filter (orphan s.keptSecrets)).map Prod.fst then none
      else s.disk.secrets.get? file := fun file => get?_foldl_remove _ _ file
  have hothers : ∀ file, (∃ x ∈ s.db.secrets, file = secretFile x.name) ∨ Go.hasSuffix file ".age" = false ∨
      ¬ s.disk.regular file → s.prepared.disk.secrets.get? file = s.disk.secrets.get? file := by
    intro file hwhy
    rw [hget, if_neg]
    rintro hmem
    obtain ⟨hreg, hage, hnot⟩ := mem_orphans.1 hmem
    rcases hwhy with hrow | hno | hno
    · exact hnot (mem_keptSecrets_iff.2 hrow)
    · rw [hage] at hno
      cases hno
    · exact hno hreg
  refine ⟨fun file => ⟨fun ⟨hage, ct, hct⟩ => ?_, ?_⟩, hothers⟩
  · rw [hget] at hct
    split at hct
    · cases hct
    · rename_i hkeep
      by_contra hrow
      exact hkeep (mem_orphans.2 ⟨⟨ct, hct⟩, hage, fun hmem => hrow (mem_keptSecrets_iff.1 hmem)⟩)
  · rintro ⟨x, hx, rfl⟩
    refine ⟨hasSuffix_secretFile x.name, ?_⟩
    unfold Disk.regular
    rw [hothers _ (.inl ⟨x, hx, rfl⟩)]
    exact h.rows x hx

end Swept

/-! ## Every run -/

section Runs

variable {s s' : State}

/-- A job changes no name of a secret. -/
theorem Jobs.Stepped.secretNames {i : Jobs.Input} {j j' : Running} (hst : Jobs.Stepped i s j s' j') :
    ∀ x ∈ s'.db.secrets, ∃ y ∈ s.db.secrets, y.name = x.name := by
  intro x hx
  cases hst with
  | markedWorkload _ _ hdb =>
    obtain rfl := Db.markApplied_ok hdb
    exact ⟨x, hx, rfl⟩
  | markedSecret =>
    refine Table.exists_of_mem_modify ?_ ?_ hx
    all_goals exact fun _ => rfl
  | deletedRow _ _ hdb =>
    obtain rfl := Db.deleteWorkload_ok hdb
    exact ⟨x, hx, rfl⟩
  | _ => exact ⟨x, hx, rfl⟩

theorem Jobs.Stepped.backed {i : Jobs.Input} {j j' : Running} (hst : Jobs.Stepped i s j s' j') (h : s.Backed) :
    s'.Backed := by
  obtain ⟨-, -, -, hindex, -, hfiles⟩ := hst.frame
  refine h.of hst.secretNames hindex fun file hf => ?_
  unfold Disk.regular
  rw [hfiles]
  exact hf

theorem State.Backed.restart (h : s.Backed) : s.restart.Backed := by
  obtain ⟨hdisk, -, -, -, jobs, hdb⟩ := s.restart_frame
  refine ⟨fun x hx => ?_, fun i hi x hx => ?_⟩
  · rw [hdb] at hx
    rw [hdisk]
    exact h.rows x hx
  · rw [hdisk] at hi ⊢
    cases hdoc : s.disk.indexNix with
    | some doc =>
      unfold Disk.init at hi
      rw [hdoc] at hi
      cases hi
      exact h.index _ hdoc x hx
    | none =>
      -- the index `Init` writes declares no secret
      unfold Disk.init at hi
      rw [hdoc] at hi
      cases hi
      exact nomatch hx

theorem State.Backed.turn {t : Turn} (h : s.Backed) (ht : s.turn t = some s') : s'.Backed := by
  cases t with
  | event e =>
    cases e with
    | request r faults =>
      cases ht
      exact ((serve_throughout r h).runWith faults).1
    | job i =>
      obtain ⟨j, t, j', -, hst, rfl⟩ := Jobs.step_some ht
      exact (hst.backed h).same rfl rfl rfl
    | restart =>
      cases ht
      exact h.restart
  | dies r faults calls =>
    cases ht
    exact ((serve_throughout r h).cutAt calls faults).restart
  | stray file content =>
    cases ht
    exact h.writeSecret file content

/-- In every run, whichever calls fail and wherever the process dies, each secret and each secret index.nix
refers to has its ciphertext; and an apply that gets past pruning leaves of the regular .age files those of
the declared secrets, and everything else as it was. -/
theorem ciphertexts_kept {h : Host} {secrets : Dir SecretsEntry} {ts : List Turn} {s : State}
    (hs : Runs.exec State.turn (State.freshOver h secrets) ts = some s) :
    s.Backed ∧ ∀ faults snap, (prepareApply.run.runWith faults s).1 = .ok snap →
      Swept s (prepareApply.run.runWith faults s).2 := by
  have hfresh : (State.freshOver h secrets).Backed := by
    refine ⟨fun x hx => absurd hx Table.not_mem_empty, fun i hi x hx => ?_⟩
    cases hi
    exact nomatch hx
  have hbacked := Runs.exec_inv_all (I := State.Backed) (fun _ _ _ => State.Backed.turn) hfresh hs
  refine ⟨hbacked, fun faults snap hok => ?_⟩
  have hend := (prepareApply_ends s).runWith faults
  rw [hok] at hend
  rw [hend.1]
  exact hbacked.swept

/-- A directory and a README beside the ciphertexts: a secret is made, saved by a request that dies before the
row, deleted and made again; then another is made in its place, and an apply fails to prune. -/
def ciphertextTurns : List Turn :=
  [.event createToken, .stray "README" "keep", .dies (.secretSave "token" ⟨"", "", "", "n3w", []⟩) [] 5,
    .event (req (.secretDelete "token")), .event createToken, .event (.request .rebuild [false, false, true]),
    .event (req (.secretCreate "other" ⟨"", "", "", "s3cret", []⟩)), .event (req (.secretDelete "token")),
    .event (.request .rebuild (List.replicate 12 false ++ [true])), .event .restart]

/-- A directory stands where the ciphertext would go. -/
def ciphertextDir : Dir SecretsEntry := Dir.empty.put "sub.age" .dir

/-- The service with such a directory. -/
def ciphertextState : State :=
  (Runs.exec State.turn (State.freshOver exampleHost ciphertextDir) ciphertextTurns).get (by decide +kernel)

theorem ciphertexts_kept_turns : ciphertextState.Backed ∧
    Swept ciphertextState (prepareApply.run.runWith [] ciphertextState).2 := by
  obtain ⟨hbacked, hswept⟩ := ciphertexts_kept (h := exampleHost) (Option.some_get _).symm
  exact ⟨hbacked, hswept [] (snapshot ciphertextState) (by decide +kernel)⟩

end Runs

end Nixbox
