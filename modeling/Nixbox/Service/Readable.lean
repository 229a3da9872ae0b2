/-
Whatever has happened, the index.nix on disk is one Nix expression, the attribute set it was generated for,
unless a workload or a secret in it is called by a reserved word.
-/
import Nixbox.Nix.IndexReading
import Nixbox.Service.Bindings
import Nixbox.Service.Ciphertexts
import Nixbox.Service.Histories
import Nixbox.Service.Mounted

namespace Nixbox

open Effect Prog Store Server Keyed
open Nix hiding FlakeInput

/-! ## Valid names -/

/-- Workloads and secrets are inserted under valid names. -/
def Write.valid {α : Type} : Write α → Prop
  | .createWorkload name .. => validateName name = .ok ()
  | .createSecret name .. => validateName name = .ok ()
  | _ => True

/-- A call that brings only valid names into the store. -/
def Op.valid {β : Type} : Op β → Prop
  | .write w => w.valid
  | _ => True

/-- Every row has a valid name. -/
structure Store.Db.Valid (db : Db) : Prop where
  workloads : ∀ w ∈ db.workloads, validateName w.name = .ok ()
  secrets : ∀ x ∈ db.secrets, validateName x.name = .ok ()

/-- A program whose calls are all so. -/
abbrev Inserts {α : Type} (p : Prog Op α) : Prop := p.Uses fun _ op => op.valid

section Handlers

variable {α ε : Type} {ks : List Kind}

theorem Op.valid_of_kind {β : Type} {op : Op β} (hr : op.kind ≠ .revision) (hs : op.kind ≠ .secretRow) :
    op.valid := by
  cases op with
  | write w =>
    cases w with
    | createWorkload => exact absurd rfl hr
    | createSecret => exact absurd rfl hs
    | _ => trivial
  | _ => trivial

/-- Programs that insert neither. -/
theorem within_inserts {p : Prog Op α} (h : Within ks p) (hr : .revision ∉ ks)
    (hs : .secretRow ∉ ks) : Inserts p :=
  Uses.mono h fun _ _ hop => Op.valid_of_kind (fun heq => hr (heq ▸ hop)) (fun heq => hs (heq ▸ hop))

theorem reads_inserts {p : Prog Op α} (h : Within [.read] p) : Inserts p := within_inserts h (by decide) (by decide)

theorem orError_inserts {x : Call α} (h : Inserts x.run) : Inserts (orError x).run := uses_adapt h

theorem attempt_inserts {x : ExceptT ε (Prog Op) α} (h : Inserts x.run) {ε' : Type} :
    Inserts (attempt x : ExceptT ε' (Prog Op) (Except ε α)).run := uses_lift h

theorem writeWorkload_inserts (name content : String) : Inserts (writeWorkload name content).run :=
  within_inserts (writeWorkload_within (List.mem_singleton_self _) name content) (by decide) (by decide)

theorem checkCreate_name {name displayName typ template : String} {r : WorkloadType × Template}
    (h : checkCreate name displayName typ template = .ok r) : validateName name = .ok () := by
  have hshared : ∀ wt ∈ registeredTypes, wt.validateName name = .ok () → validateName name = .ok () := by
    intro wt hwt hname
    simp only [registeredTypes, List.mem_cons, List.not_mem_nil, or_false] at hwt
    rcases hwt with rfl | rfl | rfl
    · change validateContainerName name = _ at hname
      unfold validateContainerName at hname
      split at hname
      · cases hname
      · assumption
    · exact hname
    · exact hname
  unfold checkCreate at h
  cases hl : lookup typ with
  | none =>
    rw [hl] at h
    cases h
  | some wt =>
    rw [hl] at h
    cases hn : wt.validateName name with
    | error m =>
      simp only [hn] at h
      cases h
    | ok _ => exact hshared wt (lookup_mem hl).1 hn

theorem handleWorkloadCreate_inserts (f : WorkloadForm) : Inserts (handleWorkloadCreate f).run := by
  unfold handleWorkloadCreate
  dsimp only
  split
  · exact uses_return _
  rename_i hcheck
  have hname := checkCreate_name hcheck
  refine uses_exceptT_bind (reads_inserts (within_attempt (within_query (by decide)))) fun r => ?_
  split
  · exact uses_return _
  · exact uses_throw _
  refine uses_exceptT_bind (orError_inserts (writeWorkload_inserts _ _)) fun _ => ?_
  refine uses_exceptT_bind (orError_inserts (uses_exceptT_bind (uses_perform hname) fun id => ?_)) fun _ =>
    uses_return _
  exact reads_inserts (within_query (by decide))

theorem handleWorkloadSave_inserts (name content : String) (ports protos : List String) :
    Inserts (handleWorkloadSave name content ports protos).run := by
  refine uses_exceptT_bind (reads_inserts (lookupWorkload_within (by decide) name)) fun wl => ?_
  dsimp only
  split
  · exact uses_return _
  refine uses_exceptT_bind (orError_inserts (writeWorkload_inserts _ _)) fun _ => ?_
  refine uses_exceptT_bind (orError_inserts (uses_perform trivial)) fun _ => ?_
  refine uses_exceptT_bind (uses_lift (uses_perform trivial)) fun r => ?_
  split
  · exact uses_return _
  · exact uses_return _

theorem handleWorkloadRestore_inserts (name id : String) : Inserts (handleWorkloadRestore name id).run := by
  refine uses_exceptT_bind (reads_inserts (lookupWorkload_within (by decide) name)) fun wl => ?_
  split
  · exact uses_throw _
  refine uses_exceptT_bind (orError_inserts (reads_inserts (within_query (by decide)))) fun revs => ?_
  split
  · exact uses_throw _
  refine uses_exceptT_bind (orError_inserts (writeWorkload_inserts _ _)) fun _ => ?_
  exact uses_exceptT_bind (orError_inserts (uses_perform trivial)) fun _ => uses_return _

theorem encryptSecret_inserts (name plaintext : String) : Inserts (encryptSecret name plaintext).run := by
  have hwithin : Within [.read, .secretFile] (encryptSecret name plaintext).run :=
    encryptSecret_within (by decide) (by decide) name plaintext
  exact within_inserts hwithin (by decide) (by decide)

theorem createSecretAt_inserts (back name : String) (form : SecretForm) (mounts : SecretFields → List ID) :
    Inserts (createSecretAt back name form mounts).run := by
  unfold createSecretAt
  dsimp only
  split
  · exact uses_return _
  rename_i hname
  refine uses_exceptT_bind (reads_inserts (within_attempt (parseSecretForm_within (by decide) form))) fun r => ?_
  split
  · exact uses_return _
  split
  · exact uses_return _
  refine uses_exceptT_bind (reads_inserts (within_attempt (secretByName_within (by decide) name))) fun r => ?_
  split
  · exact uses_return _
  · exact uses_throw _
  refine uses_exceptT_bind (attempt_inserts (encryptSecret_inserts _ _)) fun r => ?_
  split
  · exact uses_return _
  refine uses_exceptT_bind (orError_inserts (uses_exceptT_bind (uses_perform hname) fun id => ?_)) fun _ =>
    uses_return _
  exact reads_inserts (within_bind (within_query (by decide)) fun _ => within_bind (within_query (by decide))
    fun _ => within_pure _)

theorem handleSecretSave_inserts (name : String) (form : SecretForm) : Inserts (handleSecretSave name form).run := by
  refine uses_exceptT_bind (reads_inserts (lookupSecret_within (by decide) name)) fun sec => ?_
  refine uses_exceptT_bind (reads_inserts (within_attempt (parseSecretForm_within (by decide) form))) fun r => ?_
  split
  · exact uses_return _
  refine uses_exceptT_bind (attempt_inserts ?_) fun r => ?_
  · split
    · exact uses_return _
    · exact encryptSecret_inserts _ _
  split
  · exact uses_return _
  · exact uses_exceptT_bind (orError_inserts (uses_perform trivial)) fun _ => uses_return _

theorem setWorkloadSecretMount_inserts (name secret : String) (attach : Bool) :
    Inserts (setWorkloadSecretMount name secret attach).run := by
  have htouch : ∀ n sid, Inserts (touchOnChange n sid).run := by
    intro n sid
    unfold touchOnChange
    split
    · exact uses_return _
    · exact uses_perform trivial
  refine uses_exceptT_bind (reads_inserts (secretsWorkload_within (by decide) name)) fun wl => ?_
  split
  · exact uses_return _
  refine uses_exceptT_bind (reads_inserts (within_attempt (secretByName_within (by decide) secret))) fun r => ?_
  split
  · exact uses_throw _
  · exact uses_throw _
  refine uses_exceptT_bind (orError_inserts ?_) fun _ => uses_return _
  split
  · exact uses_exceptT_bind (uses_perform trivial) fun n => htouch n _
  · exact uses_exceptT_bind (uses_perform trivial) fun n => htouch n _

theorem serve_inserts (r : Request) : Inserts (serve r) := by
  have hanswer : ∀ {x : Handler Response}, Inserts x.run → Inserts x.answer := by
    intro x hx
    refine uses_bind hx fun r => ?_
    cases r <;> exact uses_pure _
  cases r with
  | workloadCreate f => exact hanswer (handleWorkloadCreate_inserts f)
  | workloadSave name content ports protos => exact hanswer (handleWorkloadSave_inserts name content ports protos)
  | workloadRestore name id => exact hanswer (handleWorkloadRestore_inserts name id)
  | secretCreate name form => exact hanswer (createSecretAt_inserts _ _ form _)
  | workloadSecretCreate name secret form =>
    refine hanswer (uses_exceptT_bind (reads_inserts (secretsWorkload_within (by decide) name)) fun wl => ?_)
    exact createSecretAt_inserts _ _ form _
  | secretSave name form => exact hanswer (handleSecretSave_inserts name form)
  | workloadSecretAttach name secret => exact hanswer (setWorkloadSecretMount_inserts name secret true)
  | workloadSecretDetach name secret => exact hanswer (setWorkloadSecretMount_inserts name secret false)
  | secretDelete name =>
    refine hanswer (uses_exceptT_bind (reads_inserts (lookupSecret_within (by decide) name)) fun sec => ?_)
    exact uses_exceptT_bind (orError_inserts (uses_perform trivial)) fun _ => uses_return _
  | _ => exact within_inserts (serve_within _) (by simp) (by simp)

end Handlers

/-! ## The rows of a run -/

section Rows

variable {s s' : State}

/-- The rows of the workloads after a statement have the names of those before it, and that of the one it
inserts. -/
theorem Write.run_workloadNames {α : Type} {w : Write α} {now : Time} {db db' : Db} {a : α}
    (h : w.run now db = .ok (a, db')) {x : Workload} (hx : x ∈ db'.workloads) :
    (∃ y ∈ db.workloads, y.name = x.name) ∨ (w.valid → validateName x.name = .ok ()) := by
  cases w with
  | createWorkload name displayName typ content ports =>
    change db.createWorkload name displayName typ content ports now = _ at h
    obtain ⟨-, rfl, rfl⟩ := Db.createWorkload_ok h
    rcases Table.mem_insert.1 hx with hx | rfl
    · exact .inl ⟨x, hx, rfl⟩
    · exact .inr id
  | saveRevision wid content ports note =>
    change db.saveRevision wid content ports note now = _ at h
    obtain ⟨-, rfl, rfl⟩ := Db.saveRevision_ok h
    refine .inl (Table.exists_of_mem_modify ?_ ?_ hx)
    all_goals exact fun _ => rfl
  | setWorkloadEnabled | setWorkloadDisplayName =>
    cases h
    refine .inl (Table.exists_of_mem_modify ?_ ?_ hx)
    all_goals exact fun _ => rfl
  | _ => exact .inl ⟨x, (Write.run_frame h).workloads nofun nofun ▸ hx, rfl⟩

theorem Write.run_valid {α : Type} {w : Write α} {now : Time} {db db' : Db} {a : α}
    (h : w.run now db = .ok (a, db')) (hw : w.valid) (hdb : db.Valid) : db'.Valid where
  workloads x hx := by
    rcases w.run_workloadNames h hx with ⟨y, hy, hname⟩ | hnew
    · exact hname ▸ hdb.workloads y hy
    · exact hnew hw
  secrets x hx := by
    rcases w.run_secretNames h hx with ⟨y, hy, hname⟩ | hnew
    · exact hname ▸ hdb.secrets y hy
    · cases w with
      | createSecret => cases hnew; exact hw
      | _ => cases hnew

theorem exec_valid {β : Type} {op : Op β} (hop : op.valid) (h : s.db.Valid) : (s.exec op).2.db.Valid := by
  cases op with
  | write w =>
    obtain ⟨db, hs, hdb⟩ := s.write_cases w
    show (s.write w).2.db.Valid
    rw [hs]
    rcases hdb with rfl | ⟨a, hrun⟩
    · exact h
    · exact w.run_valid hrun hop h
  | writeSecret file ct =>
    show (s.writeSecret file ct).2.db.Valid
    rcases s.writeSecret_cases file ct with hs | hs <;> rw [hs] <;> exact h
  | _ => exact h

theorem State.handle_valid (h : s.db.Valid) (r : Request) (faults : List Bool) : (s.handle r faults).db.Valid :=
  (Uses.ends (I := fun t : State => t.db.Valid) (fun _ _ _ => exec_valid) (serve_inserts r) h).runWith faults

theorem State.step_valid {e : Event} (h : s.db.Valid) (hs : s.step e = some s') : s'.db.Valid := by
  cases e with
  | request r faults => cases hs; exact State.handle_valid h r faults
  | restart =>
    cases hs
    obtain ⟨-, -, -, -, jobs, hdb⟩ := s.restart_frame
    rw [hdb]
    exact { h with }
  | job i =>
    obtain ⟨j, t, j', -, hst, rfl⟩ := Jobs.step_some hs
    cases hst with
    | markedWorkload _ _ hdb =>
      refine ⟨fun x hx => ?_, fun x hx => ?_⟩
      · rcases (mem_markApplied hdb).1 hx with ⟨hx, -⟩ | ⟨w, hw, -, rfl⟩
        · exact h.workloads x hx
        · exact h.workloads w hw
      · obtain rfl := Db.markApplied_ok hdb
        exact h.secrets x hx
    | markedSecret =>
      refine ⟨h.workloads, fun x hx => ?_⟩
      obtain ⟨y, hy, hname⟩ : ∃ y ∈ s.db.secrets, y.name = x.name := by
        refine Table.exists_of_mem_modify ?_ ?_ hx
        all_goals exact fun _ => rfl
      exact hname ▸ h.secrets y hy
    | deletedRow _ _ hdb =>
      obtain rfl := Db.deleteWorkload_ok hdb
      exact ⟨fun x hx => h.workloads x (Table.mem_deleteWhere.1 hx).1, h.secrets⟩
    | _ => exact { h with }

theorem State.Reachable.valid (h : s.Reachable) : s.db.Valid := by
  obtain ⟨host, es, hs⟩ := h
  exact Runs.exec_inv_all (I := fun s : State => s.db.Valid) (fun _ _ _ => State.step_valid)
    ⟨fun _ h => absurd h Table.not_mem_empty, fun _ h => absurd h Table.not_mem_empty⟩ hs

end Rows

/-! ## What the rows give -/

section Index

variable {db : Db}

theorem addMount_keys (key name : String) (l : List (String × List String)) :
    (addMount key name l).map (·.1) = if key ∈ l.map (·.1) then l.map (·.1) else l.map (·.1) ++ [key] := by
  induction l with
  | nil => rfl
  | cons m l ih =>
    obtain ⟨k, names⟩ := m
    unfold addMount
    by_cases hk : k = key
    · simp [hk]
    · rw [if_neg hk, List.map_cons, ih]
      by_cases hmem : key ∈ l.map (·.1)
      · simp [hmem]
      · rw [if_neg hmem, if_neg]
        · rfl
        · rw [List.map_cons, List.mem_cons, not_or]
          exact ⟨Ne.symm hk, hmem⟩

/-- The mounts gathered from deliveries have each key once, and the keys of the deliveries. -/
theorem foldl_addMount_keys (ds : List (String × String)) {l : List (String × List String)}
    (hl : (l.map (·.1)).Nodup) :
    ((ds.foldl (fun m d => addMount d.1 d.2 m) l).map (·.1)).Nodup ∧
      ∀ k ∈ (ds.foldl (fun m d => addMount d.1 d.2 m) l).map (·.1), k ∈ l.map (·.1) ∨
      k ∈ ds.map (·.1) := by
  induction ds generalizing l with
  | nil => exact ⟨hl, fun k hk => .inl hk⟩
  | cons d ds ih =>
    have hkeys := addMount_keys d.1 d.2 l
    have hnd : ((addMount d.1 d.2 l).map (·.1)).Nodup := by
      rw [hkeys]
      split
      · exact hl
      · rename_i hnew
        rw [List.nodup_append]
        refine ⟨hl, List.nodup_singleton _, ?_⟩
        rintro a ha b hb rfl
        exact hnew (List.mem_singleton.1 hb ▸ ha)
    obtain ⟨hnd', hmem⟩ := ih hnd
    refine ⟨hnd', fun k hk => ?_⟩
    rcases hmem k hk with hk | hk
    · rw [hkeys] at hk
      split at hk
      · exact .inl hk
      · rcases List.mem_append.1 hk with hk | hk
        · exact .inl hk
        · exact .inr (List.mem_singleton.1 hk ▸ .head _)
    · exact .inr (.tail _ hk)

theorem delivery_key {workloads : List Workload} {wid : ID} {d : String × String}
    (h : delivery workloads wid = some d) :
    d.1 ∈ registeredTypes.map (·.indexKey) := by
  unfold delivery at h
  obtain ⟨w, -, h⟩ := Option.bind_eq_some_iff.1 h
  obtain ⟨wt, hwt, h⟩ := Option.bind_eq_some_iff.1 h
  split at h
  · cases h
    exact List.mem_map_of_mem (lookup_mem hwt).1
  · cases h

theorem indexSecret_mounts {workloads : List Workload} (sec : Secret) :
    ((indexSecret workloads sec).mounts.map (·.1)).Nodup ∧
      ∀ m ∈ (indexSecret workloads sec).mounts, m.1 ∈ registeredTypes.map (·.indexKey) := by
  have hkeys := foldl_addMount_keys (sec.workloadIDs.filterMap (delivery workloads)) (l := []) List.nodup_nil
  refine ⟨hkeys.1, fun m hm => ?_⟩
  rcases hkeys.2 m.1 (List.mem_map_of_mem hm) with hk | hk
  · cases hk
  · obtain ⟨d, hd, heq⟩ := List.mem_map.1 hk
    obtain ⟨wid, -, hd⟩ := List.mem_filterMap.1 hd
    exact heq ▸ delivery_key hd

/-- Rows with valid names, each once, are fit for index.nix. -/
theorem Store.Db.Valid.sources (h : db.Valid) (hwf : db.WF) :
    IndexSources db.indexEntries (db.secretList.map (indexSecret db.workloadList)) where
  names e he := by
    obtain ⟨w, hw, -, rfl⟩ := Db.mem_indexEntries.1 he
    exact h.workloads w hw
  distinct := by
    have hrows : db.workloadList.Nodup :=
      (List.perm_insertionSort _ db.workloads.rows).nodup_iff.2 (List.Nodup.of_map _ db.workloads.nodup_ids)
    unfold Db.indexEntries
    rw [List.map_map]
    refine (hrows.filter _).map_on fun w hw w' hw' hname => ?_
    exact hwf.workloadNames w (Db.mem_workloadList.1 (List.mem_filter.1 hw).1) w'
      (Db.mem_workloadList.1 (List.mem_filter.1 hw').1) hname
  secretNames s hs := by
    obtain ⟨x, hx, rfl⟩ := List.mem_map.1 hs
    obtain ⟨row, hrow, rfl⟩ := List.mem_map.1 hx
    exact h.secrets row (Db.mem_secretRows.1 hrow)
  secretsDistinct := by
    have hrows : db.secretRows.Nodup :=
      (List.perm_insertionSort _ db.secrets.rows).nodup_iff.2 (List.Nodup.of_map _ db.secrets.nodup_ids)
    unfold Db.secretList
    rw [List.map_map, List.map_map]
    refine hrows.map_on fun x hx y hy hname => ?_
    exact hwf.secretNames x (Db.mem_secretRows.1 hx) y (Db.mem_secretRows.1 hy) hname
  mounts s hs := by
    obtain ⟨x, -, rfl⟩ := List.mem_map.1 hs
    exact indexSecret_mounts x

/-- The document can be read back. -/
structure Nix.IndexDoc.Readable (d : IndexDoc) : Prop where
  named : d.Named
  distinct : d.Distinct

theorem Store.Db.Valid.index_readable (h : db.Valid) (hwf : db.WF) : db.index.Readable :=
  ⟨(h.sources hwf).named, (h.sources hwf).doc_distinct⟩

theorem indexDoc_nil_readable : (indexDoc [] []).Readable := by
  have hsources : IndexSources [] [] := ⟨nofun, List.nodup_nil, nofun, List.nodup_nil, nofun⟩
  exact ⟨hsources.named, hsources.doc_distinct⟩

end Index

/-! ## The file -/

section File

variable {s s' : State}

theorem State.step_index (hvalid : s.db.Valid) (hwf : s.db.WF)
    (h : ∀ d, s.disk.indexNix = some d → d.Readable) {e : Event}
    (hs : s.step e = some s') : ∀ d, s'.disk.indexNix = some d → d.Readable := by
  intro d hd
  cases e with
  | request r faults =>
    cases hs
    rcases s.handle_index r faults with hkept | ⟨t, ht, hindex⟩
    · exact h d (hkept ▸ hd)
    · rw [hindex] at hd
      cases hd
      cases ht with
      | apply => exact hvalid.index_readable hwf
      | @destroy w hw =>
        obtain ⟨hv, hf⟩ : (s.disabled w.id).db.Valid ∧ (s.disabled w.id).db.WF := by
          have hrun : (Write.setWorkloadEnabled w.id false).run (s.host.clock s.ticks) s.db =
              .ok ((), (s.disabled w.id).db) := rfl
          exact ⟨Write.run_valid hrun trivial hvalid, Write.run_wf hwf hrun⟩
        exact hv.index_readable hf
  | restart =>
    cases hs
    rw [s.restart_frame.1] at hd
    unfold Disk.init at hd
    cases hd
    cases hindex : s.disk.indexNix with
    | none => exact indexDoc_nil_readable
    | some d => exact h d hindex
  | job i =>
    obtain ⟨j, t, j', -, hst, rfl⟩ := Jobs.step_some hs
    exact h d (hst.frame.2.2.2.1 ▸ hd)

/-- In every state of every run, what is on disk as index.nix is read as the attribute set it was written for,
unless a name in it is reserved; then it is not read at all. -/
theorem index_reads (hs : s.Reachable) {d : IndexDoc} (hd : s.disk.indexNix = some d) :
    readNix d.text = if d.unreserved then some d.expr else none := by
  obtain ⟨host, es, hs⟩ := hs
  have hinv : s.db.Valid ∧ s.db.WF ∧ ∀ d, s.disk.indexNix = some d → d.Readable := by
    refine Runs.exec_inv_all (I := fun s : State => s.db.Valid ∧ s.db.WF ∧
      ∀ d, s.disk.indexNix = some d → d.Readable)
      (fun _ _ _ h hstep => ⟨State.step_valid h.1 hstep, State.step_wf h.2.1 hstep,
        State.step_index h.1 h.2.1 h.2.2 hstep⟩)
      ⟨⟨fun _ h => absurd h Table.not_mem_empty, fun _ h => absurd h Table.not_mem_empty⟩,
        Db.wf_empty, fun d hd => ?_⟩ hs
    cases hd
    exact indexDoc_nil_readable
  exact IndexDoc.readNix_text (hinv.2.2 d hd).named (hinv.2.2 d hd).distinct

end File

/-- A container and a secret it gets, applied. -/
def webApplied : State :=
  ((State.fresh exampleHost).run [createWeb, createToken, req (.workloadSecretAttach "web" "token"),
    req (.workloadEnable "web"), req (.secretApply "build")]).get (by decide +kernel)

theorem index_reads_web :
    webApplied.disk.indexNix = some webApplied.db.index ∧ webApplied.db.index.unreserved = true ∧
      webApplied.db.index.sections = [("containers", ["web"]), ("ociContainers", []), ("hostServices", [])] ∧
      webApplied.db.index.secrets = [⟨"token", "root", "root", "0400", [("containers", ["web"])]⟩] ∧
      readNix webApplied.db.index.text = if webApplied.db.index.unreserved then
      some webApplied.db.index.expr else none := by
  have hdisk : webApplied.disk.indexNix = some webApplied.db.index := by decide +kernel
  refine ⟨hdisk, by decide +kernel, by decide +kernel, by decide +kernel, ?_⟩
  exact index_reads ⟨_, _, (Option.some_get _).symm⟩ hdisk

end Nixbox
