/-
An apply while nobody edits what it applies: inputs and secrets may be added, and other ones edited, but those of
the snapshot stay. The job then marks the very rows it has applied.
-/
import Nixbox.Service.Badges

namespace Nixbox

open Effect Prog Store Server Keyed
open Nix hiding FlakeInput

/-! ## Definitions -/

/-- The input a request edits or deletes. -/
def Server.Request.editsInput : Request → Option String
  | .flakeSave name .. | .flakeDelete name => some name
  | _ => none

/-- The secret a request edits or deletes. -/
def Server.Request.editsSecret : Request → Option String
  | .secretSave name _ | .secretDelete name | .workloadSecretAttach _ name | .workloadSecretDetach _ name => some name
  | _ => none

/-- A request edits and deletes no input and no secret of `s₀`, so that none of them can be made again either; its
edit of another secret gets as far as the stamp. -/
def sparesSnapshot (s₀ s : State) : Event → Bool
  | .request r faults => s₀.db.flakeInputs.rows.all (fun f => r.editsInput != some f.name) &&
    s₀.db.secrets.rows.all (fun x => r.editsSecret != some x.name) && r.stamps s faults
  | _ => true

/-- The row of an input a statement edits or deletes. -/
def Write.editedInput {α : Type} : Write α → Option ID
  | .updateFlakeInput id .. | .deleteFlakeInput id => some id
  | _ => none

/-- The row of a secret a statement edits or deletes. -/
def Write.editedSecret {α : Type} : Write α → Option ID
  | .updateSecret id .. | .touchSecret id | .deleteSecret id => some id
  | _ => none

/-- The inputs and the secrets of `s` are in `s'`, but for those of the two names. -/
structure KeptBut (input secret : Option String) (s s' : State) : Prop where
  inputs : ∀ f ∈ s.db.flakeInputs, input ≠ some f.name → f ∈ s'.db.flakeInputs
  secrets : ∀ x ∈ s.db.secrets, secret ≠ some x.name → x ∈ s'.db.secrets

/-! ## Statements -/

section Statements

variable {α : Type} {now : Time} {db db' : Db} {s t u : State} {input secret : Option String}

/-- A statement leaves every input and every secret but the one it is about. -/
theorem Write.run_kept {w : Write α} {a : α} (h : w.run now db = .ok (a, db')) :
    (∀ f ∈ db.flakeInputs, w.editedInput ≠ some f.id → f ∈ db'.flakeInputs) ∧
      ∀ x ∈ db.secrets, w.editedSecret ≠ some x.id → x ∈ db'.secrets := by
  have hframe := Write.run_frame h
  -- a statement on another table
  have hinputs : w.kind ≠ .flakeRow →
      ∀ f ∈ db.flakeInputs, w.editedInput ≠ some f.id → f ∈ db'.flakeInputs := by
    intro hk f hf _
    rw [hframe.inputs hk]
    exact hf
  have hsecrets : w.kind ≠ .secretRow →
      ∀ x ∈ db.secrets, w.editedSecret ≠ some x.id → x ∈ db'.secrets := by
    intro hk x hx _
    rw [(hframe.secrets hk).1]
    exact hx
  cases w with
  | createFlakeInput =>
    obtain ⟨-, -, rfl⟩ := Db.createFlakeInput_ok h
    exact ⟨fun f hf _ => Table.mem_insert.2 (.inl hf), hsecrets nofun⟩
  | updateFlakeInput =>
    cases h
    refine ⟨fun f hf hne => ?_, hsecrets nofun⟩
    refine Table.mem_modify_of_ne ?_ hf fun hid => hne (congrArg some hid.symm)
    exact fun _ => rfl
  | deleteFlakeInput =>
    cases h
    refine ⟨fun f hf hne => Table.mem_deleteWhere.2 ⟨hf, ?_⟩, hsecrets nofun⟩
    simpa using fun hid => hne (congrArg some hid.symm)
  | createSecret =>
    obtain ⟨-, -, hrep⟩ := Db.createSecret_ok h
    obtain ⟨m, rfl⟩ := Db.replaceMounts_frame hrep
    exact ⟨hinputs nofun, fun x hx _ => Table.mem_insert.2 (.inl hx)⟩
  | updateSecret =>
    obtain ⟨m, rfl⟩ := Db.replaceMounts_frame (Db.unit_ok h)
    refine ⟨hinputs nofun, fun x hx hne => ?_⟩
    refine Table.mem_modify_of_ne ?_ hx fun hid => hne (congrArg some hid.symm)
    exact fun _ => rfl
  | insertMountOrIgnore =>
    obtain ⟨m, rfl⟩ := Db.insertMountOrIgnore_frame h
    exact ⟨hinputs nofun, fun x hx _ => hx⟩
  | deleteMount =>
    cases h
    exact ⟨hinputs nofun, fun x hx _ => hx⟩
  | touchSecret =>
    cases h
    refine ⟨hinputs nofun, fun x hx hne => ?_⟩
    refine Table.mem_modify_of_ne ?_ hx fun hid => hne (congrArg some hid.symm)
    exact fun _ => rfl
  | deleteSecret =>
    cases h
    refine ⟨hinputs nofun, fun x hx hne => Table.mem_deleteWhere.2 ⟨hx, ?_⟩⟩
    simpa using fun hid => hne (congrArg some hid.symm)
  | _ => exact ⟨hinputs nofun, hsecrets nofun⟩

theorem KeptBut.refl (s : State) : KeptBut input secret s s := ⟨fun _ h _ => h, fun _ h _ => h⟩

theorem KeptBut.trans (h : KeptBut input secret s t) (h' : KeptBut input secret t u) : KeptBut input secret s u :=
  ⟨fun f hf hne => h'.inputs f (h.inputs f hf hne) hne, fun x hx hne => h'.secrets x (h.secrets x hx hne) hne⟩

theorem keptBut_of_eq (hi : t.db.flakeInputs = s.db.flakeInputs) (hx : t.db.secrets = s.db.secrets) :
    KeptBut input secret s t :=
  ⟨fun _ hf _ => hi ▸ hf, fun _ hxs _ => hx ▸ hxs⟩

/-- A statement about the rows of the two names at most. -/
theorem write_keptBut {w : Write α}
    (hi : ∀ f ∈ s.db.flakeInputs, w.editedInput = some f.id → input = some f.name)
    (hx : ∀ x ∈ s.db.secrets, w.editedSecret = some x.id → secret = some x.name) :
    KeptBut input secret s (s.write w).2 := by
  obtain ⟨db, hs, hdb⟩ := s.write_cases w
  rw [hs]
  rcases hdb with rfl | ⟨a, hrun⟩
  · exact keptBut_of_eq rfl rfl
  · obtain ⟨hinputs, hsecrets⟩ := Write.run_kept hrun
    exact ⟨fun f hf hne => hinputs f hf fun hid => hne (hi f hf hid),
      fun x hxs hne => hsecrets x hxs fun hid => hne (hx x hxs hid)⟩

/-- A statement that edits no input, and of the secrets at most the one `x`. -/
theorem write_keptSecret {w : Write α} {x : SecretRow} (hx : x ∈ s.db.secrets) (hi : w.editedInput = none)
    (hw : w.editedSecret = none ∨ w.editedSecret = some x.id) : KeptBut input (some x.name) s (s.write w).2 := by
  refine write_keptBut (fun f _ hid => ?_) fun y hy hid => ?_
  · rw [hi] at hid
    cases hid
  · rcases hw with hw | hw
    · rw [hw] at hid
      cases hid
    · rw [hw] at hid
      rw [Table.eq_of_rowid hx hy (Option.some.inj hid)]

/-- A statement that inserts. -/
theorem write_inserts {w : Write α} (hi : w.editedInput = none) (hx : w.editedSecret = none) :
    KeptBut input secret s (s.write w).2 := by
  refine write_keptBut (fun f _ hid => ?_) fun x _ hid => ?_
  · rw [hi] at hid
    cases hid
  · rw [hx] at hid
    cases hid

end Statements

/-! ## Requests -/

section Requests

variable {s : State} {input secret : Option String}

theorem Encrypted.keptBut {name : String} {t : State} (h : Encrypted name s t) : KeptBut input secret s t :=
  keptBut_of_eq (by rw [h.db]) (by rw [h.db])

theorem reads_flakeInputByName (name : String) :
    Reads (fun f => f ∈ s.db.flakeInputs ∧ f.name = name) (Store.flakeInputByName name) s := by
  refine EndsIf.mono reads_query fun _ _ h => ⟨h.1, fun f hf => ?_⟩
  have hf := h.2 f hf
  unfold Db.flakeInputByName at hf
  split at hf
  · rename_i hfind
    cases hf
    exact ⟨List.mem_of_find?_eq_some hfind, by simpa using List.find?_some hfind⟩
  · cases hf

theorem reads_secretNamed (name : String) :
    Reads (fun sec => sec.toSecretRow ∈ s.db.secrets ∧ sec.name = name) (Store.secretByName name) s :=
  (secretByName_ends name).mono fun r _ h => ⟨h.1, fun sec hr => by subst hr; exact h.2⟩

theorem handleFlakeCreate_kept (name url follows : String) :
    Ends (fun _ s' => KeptBut none none s s') (handleFlakeCreate name url follows).run s := by
  have hnothing : KeptBut none none s s := .refl s
  unfold handleFlakeCreate
  dsimp only
  split
  · exact ends_return.2 hnothing
  split
  · exact ends_return.2 hnothing
  refine ends_exceptT_bind.2
    (ends_attempt.2 (EndsIf.mono (reads_flakeInputByName (Go.trimSpace name)) fun r s' hr => ?_))
  obtain ⟨rfl, -⟩ := hr
  match r with
  | .ok _ => exact ends_return.2 hnothing
  | .error .failed => exact ends_throw.2 hnothing
  | .error .notFound =>
    refine ends_exceptT_bind.2 (ends_orError.2 (ends_exceptT_bind.2 (ends_write.2 ⟨?_, hnothing⟩)))
    have hmade : KeptBut none none s'
        (s'.write (.createFlakeInput (Go.trimSpace name) (Go.trimSpace url) (follows == "on"))).2 :=
      write_inserts rfl rfl
    split
    · refine EndsIf.mono reads_query fun r t ht => ?_
      obtain ⟨rfl, -⟩ := ht
      cases r with
      | ok _ => exact ends_return.2 hmade
      | error _ => exact hmade
    · exact hmade

theorem write_keptInput {α : Type} {w : Write α} {f : FlakeInput} (hf : f ∈ s.db.flakeInputs)
    (hw : w.editedInput = some f.id) (hx : w.editedSecret = none) : KeptBut (some f.name) secret s (s.write w).2 := by
  refine write_keptBut (fun g hg hid => ?_) fun x _ hid => ?_
  · rw [hw] at hid
    rw [Table.eq_of_rowid hf hg (Option.some.inj hid)]
  · rw [hx] at hid
    cases hid

theorem handleFlakeSave_kept (name url follows : String) :
    Ends (fun _ s' => KeptBut (some name) none s s') (handleFlakeSave name url follows).run s := by
  have hnothing : KeptBut (some name) none s s := .refl s
  refine (reads_lookupBy (reads_flakeInputByName name)).bind (fun f hf => ?_) fun _ => hnothing
  obtain ⟨-, hf, rfl⟩ := hf
  dsimp only
  split
  · exact ends_return.2 hnothing
  refine ends_exceptT_bind.2 (ends_orError.2 (ends_write.2 ⟨?_, hnothing⟩))
  have hsaved : KeptBut (some f.name) none s
      (s.write (.updateFlakeInput f.id (Go.trimSpace url) (follows == "on"))).2 := write_keptInput hf rfl rfl
  split
  · exact ends_return.2 hsaved
  · exact hsaved

theorem handleFlakeDelete_kept (name : String) :
    Ends (fun _ s' => KeptBut (some name) none s s') (handleFlakeDelete name).run s := by
  have hnothing : KeptBut (some name) none s s := .refl s
  refine (reads_lookupBy (reads_flakeInputByName name)).bind (fun f hf => ?_) fun _ => hnothing
  obtain ⟨-, hf, rfl⟩ := hf
  refine ends_exceptT_bind.2 (ends_orError.2 (ends_write.2 ⟨ends_return.2 ?_, hnothing⟩))
  exact write_keptInput hf rfl rfl

theorem createSecretAt_kept (back name : String) (form : SecretForm) (mounts : SecretFields → List ID) :
    Ends (fun _ s' => KeptBut none none s s') (createSecretAt back name form mounts).run s := by
  have hnothing : KeptBut none none s s := .refl s
  unfold createSecretAt
  dsimp only
  split
  · exact ends_return.2 hnothing
  refine ends_exceptT_bind.2 (ends_attempt.2 (EndsIf.mono (parseSecretForm_reads form) fun r s' hr => ?_))
  obtain ⟨rfl, -⟩ := hr
  cases r with
  | error m => exact ends_return.2 hnothing
  | ok f =>
    dsimp only
    split
    · exact ends_return.2 hnothing
    refine ends_exceptT_bind.2 (ends_attempt.2 ((secretByName_ends name).mono fun r s'' hr => ?_))
    obtain ⟨rfl, -⟩ := hr
    match r with
    | .ok _ => exact ends_return.2 hnothing
    | .error .failed => exact ends_throw.2 hnothing
    | .error .notFound =>
      refine ends_exceptT_bind.2 (ends_attempt.2 ((encryptSecret_ends name f.value).mono fun r t ht => ?_))
      have hsame : KeptBut none none s'' t := ht.1.keptBut
      cases r with
      | error e => exact ends_return.2 hsame
      | ok _ =>
        refine ends_exceptT_bind.2 (ends_orError.2 (ends_exceptT_bind.2 (ends_write.2 ⟨?_, hsame⟩)))
        have hmade : KeptBut none none s'' (t.write (.createSecret name f.owner f.group f.mode (mounts f))).2 :=
          hsame.trans (write_inserts rfl rfl)
        split
        · refine EndsIf.mono (secretByID_reads _) fun r u hu => ?_
          obtain ⟨rfl, -⟩ := hu
          cases r with
          | ok _ => exact ends_return.2 hmade
          | error _ => exact hmade
        · exact hmade

theorem handleSecretDelete_kept (name : String) :
    Ends (fun _ s' => KeptBut none (some name) s s') (handleSecretDelete name).run s := by
  have hnothing : KeptBut none (some name) s s := .refl s
  refine (reads_lookupBy (reads_secretNamed name)).bind (fun sec hsec => ?_) fun _ => hnothing
  obtain ⟨-, hsec, rfl⟩ := hsec
  refine ends_exceptT_bind.2 (ends_orError.2 (ends_write.2 ⟨ends_return.2 ?_, hnothing⟩))
  exact write_keptSecret hsec rfl (.inr rfl)

theorem handleSecretSave_kept (name : String) (form : SecretForm) :
    Ends (fun _ s' => KeptBut none (some name) s s') (handleSecretSave name form).run s := by
  have hnothing : KeptBut none (some name) s s := .refl s
  refine (reads_lookupBy (reads_secretNamed name)).bind (fun sec hsec => ?_) fun _ => hnothing
  obtain ⟨-, hsec, rfl⟩ := hsec
  refine ends_exceptT_bind.2 (ends_attempt.2 (EndsIf.mono (parseSecretForm_reads form) fun r s' hr => ?_))
  obtain ⟨rfl, -⟩ := hr
  cases r with
  | error m => exact ends_return.2 hnothing
  | ok f =>
    have hvalue : Ends (fun _ t => Encrypted sec.name s' t)
        (if f.value = "" then pure () else encryptSecret sec.name f.value : Call Unit).run s' := by
      split
      · exact ends_return.2 (.refl _ _)
      · exact (encryptSecret_ends _ _).mono fun _ _ h => h.1
    refine ends_exceptT_bind.2 (ends_attempt.2 (hvalue.mono fun r t ht => ?_))
    cases r with
    | error e => exact ends_return.2 ht.keptBut
    | ok _ =>
      refine ends_exceptT_bind.2 (ends_orError.2 (ends_write.2 ⟨?_, ht.keptBut⟩))
      have hsaved : KeptBut none (some sec.name) s'
          (t.write (.updateSecret sec.id f.owner f.group f.mode f.mounts)).2 :=
        ht.keptBut.trans (write_keptSecret (by rw [ht.db]; exact hsec) rfl (.inr rfl))
      split
      · exact ends_return.2 hsaved
      · exact hsaved

/-- A mount and, if there was something to change, the stamp of its secret. -/
theorem mount_kept {w : Write Nat} {sec : SecretRow} (hsec : sec ∈ s.db.secrets) (hi : w.editedInput = none)
    (hw : w.editedSecret = none) (hrows : (s.write w).2.db.secrets = s.db.secrets) :
    Ends (fun _ s' => KeptBut none (some sec.name) s s')
      (do let n ← Store.write w; touchOnChange n sec.id : Call Unit).run s := by
  have hmounted : KeptBut none (some sec.name) s (s.write w).2 := write_inserts hi hw
  -- without the stamp, as where a call fails, the mounts alone have changed
  refine ends_exceptT_bind.2 (ends_write.2 ⟨?_, .refl s⟩)
  cases hn : (s.write w).1 with
  | error e => exact hmounted
  | ok n =>
    dsimp only
    unfold touchOnChange
    split
    · exact ends_return.2 hmounted
    · refine ends_write.2 ⟨hmounted.trans (write_keptSecret ?_ rfl (.inr rfl)), hmounted⟩
      rw [hrows]
      exact hsec

theorem mounted_secrets (sid wid : ID) :
    (s.write (.insertMountOrIgnore sid wid)).2.db.secrets = s.db.secrets := by
  obtain ⟨db, hs, hdb⟩ := s.write_cases (.insertMountOrIgnore sid wid)
  rw [hs]
  rcases hdb with rfl | ⟨n, hrun⟩
  · rfl
  · obtain ⟨m, rfl⟩ := Db.insertMountOrIgnore_frame hrun
    rfl

theorem setWorkloadSecretMount_kept (name secret : String) (attach : Bool) :
    Ends (fun _ s' => KeptBut none (some secret) s s') (setWorkloadSecretMount name secret attach).run s := by
  have hnothing : KeptBut none (some secret) s s := .refl s
  refine (reads_secretsWorkload name).bind (fun wl _ => ?_) fun _ => hnothing
  split
  · exact ends_return.2 hnothing
  refine ends_exceptT_bind.2 (ends_attempt.2 (EndsIf.mono (reads_secretNamed secret) fun r s' hr => ?_))
  obtain ⟨rfl, hr⟩ := hr
  match r, hr with
  | .error .notFound, _ => exact ends_throw.2 hnothing
  | .error .failed, _ => exact ends_throw.2 hnothing
  | .ok sec, hr =>
    obtain ⟨hsec, rfl⟩ := hr sec rfl
    have hset : Ends (fun _ t => KeptBut none (some sec.name) s' t)
        (if attach then addSecretMount sec.id wl.id else removeSecretMount sec.id wl.id).run s' := by
      split
      · exact mount_kept hsec rfl rfl (mounted_secrets _ _)
      · exact mount_kept hsec rfl rfl rfl
    refine ends_exceptT_bind.2 (ends_orError.2 (hset.mono fun r t ht => ?_))
    cases r with
    | ok _ => exact ends_return.2 ht
    | error _ => exact ht

/-- A request leaves every input and every secret but the one it is about. -/
theorem State.handle_kept (s : State) (r : Request) (faults : List Bool) :
    KeptBut r.editsInput r.editsSecret s (s.handle r faults) := by
  have hframe : .flakeRow ∉ r.kinds → .secretRow ∉ r.kinds →
      KeptBut r.editsInput r.editsSecret s (s.handle r faults) := by
    intro hi hx
    have hrows := s.handle_frame r faults
    exact keptBut_of_eq (hrows.inputRows hi) (hrows.secretRows hx).1
  cases r with
  | flakeCreate name url follows => exact (ends_answer_of (handleFlakeCreate_kept name url follows)).runWith faults
  | flakeSave name url follows => exact (ends_answer_of (handleFlakeSave_kept name url follows)).runWith faults
  | flakeDelete name => exact (ends_answer_of (handleFlakeDelete_kept name)).runWith faults
  | secretCreate name form => exact (ends_answer_of (createSecretAt_kept _ _ form _)).runWith faults
  | secretSave name form => exact (ends_answer_of (handleSecretSave_kept name form)).runWith faults
  | secretDelete name => exact (ends_answer_of (handleSecretDelete_kept name)).runWith faults
  | workloadSecretCreate name secret form =>
    refine EndsIf.runWith (ends_answer_of ((reads_secretsWorkload name).bind (fun wl _ => ?_) fun _ => ?_)) faults
    · exact createSecretAt_kept _ _ form _
    · exact .refl s
  | workloadSecretAttach name secret =>
    exact (ends_answer_of (setWorkloadSecretMount_kept name secret true)).runWith faults
  | workloadSecretDetach name secret =>
    exact (ends_answer_of (setWorkloadSecretMount_kept name secret false)).runWith faults
  | _ => apply hframe <;> simp

end Requests

/-! ## From the snapshot on -/

section Sparing

variable {ρ : Type} [Badged ρ] [HasId ρ] {t₀ t t' : Table ρ}

/-- The rows of `t₀` are there, the mark aside. -/
def StillThere (t₀ t : Table ρ) : Prop := ∀ x ∈ t₀, Has t x

/-- The row is the one of `t₀`. -/
theorem StillThere.sameRow [DecidableEq ρ] (hid : ∀ x : ρ, rowid (unapplied x) = rowid x)
    (h : StillThere t₀ t) {x : ρ} (hx : x ∈ t₀) : sameRow t₀ t (rowid x) = true := by
  obtain ⟨y, hy, heq⟩ := h x hx
  have hrow : rowid y = rowid x := by
    rw [← hid y, heq, hid x]
  have hfind : t.find? (rowid x) = some y := Table.find?_eq_some.2 ⟨hy, hrow⟩
  unfold Nixbox.sameRow
  rw [hfind, Table.find?_mem hx]
  simp [heq]

theorem StillThere.mark {id : ID} {f : ρ → ρ} (hf : ∀ r, rowid (f r) = rowid r)
    (hsame : ∀ r, unapplied (f r) = unapplied r) (h : StillThere t₀ t) : StillThere t₀ (t.modify id f hf) := by
  intro x hx
  obtain ⟨y, hy, heq⟩ := h x hx
  by_cases hrow : rowid y = id
  · exact ⟨f y, Table.mem_modify.2 (.inr ⟨y, hy, hrow, rfl⟩), (hsame y).trans heq⟩
  · exact ⟨y, Table.mem_modify_of_ne hf hy hrow, heq⟩

/-- What is left to mark is of `s₀`. -/
def Phase.MarksOf (s₀ : State) : Phase → Prop
  | .mark _ inputs secrets => (∀ id ∈ inputs, ∃ f ∈ s₀.db.flakeInputs, f.id = id) ∧
    ∀ id ∈ secrets, ∃ x ∈ s₀.db.secrets, x.id = id
  | _ => True

/-- The apply job started in `s₀` is in flight, nothing it marks has been edited. -/
structure Sparing (s₀ : State) (mode : RebuildMode) (s : State) : Prop where
  job : Carries (applyFn mode s₀) s
  inputs : StillThere s₀.db.flakeInputs s.db.flakeInputs
  secrets : StillThere s₀.db.secrets s.db.secrets
  marks : ∀ j, s.job = some j → j.phase.MarksOf s₀

variable {s₀ s s' : State} {mode : RebuildMode}

/-- What the snapshot lists are the rows of its state. -/
theorem snapshot_marks (s₀ : State) (ws : List (ID × ID)) :
    (Phase.mark ws (snapshot s₀).2.1 (snapshot s₀).2.2).MarksOf s₀ := by
  refine ⟨fun id hid => ?_, fun id hid => ?_⟩
  · obtain ⟨f, hf, rfl⟩ := List.mem_map.1 hid
    exact ⟨f, (List.mem_insertionSort _).1 hf, rfl⟩
  · obtain ⟨x, hx, rfl⟩ := List.mem_map.1 hid
    obtain ⟨y, hy, rfl⟩ := List.mem_map.1 hx
    exact ⟨y, (List.mem_insertionSort _).1 hy, rfl⟩

theorem rebuildReturned_marks {j : Running} (r : Rebuilt) (hfn : j.fn = applyFn mode s₀) :
    (Jobs.rebuildReturned j r).phase.MarksOf s₀ := by
  unfold Jobs.rebuildReturned
  dsimp only
  rw [hfn]
  unfold applyFn
  dsimp only
  split
  · exact snapshot_marks s₀ _
  · trivial

/-- A step of the job marks the first of what is left, or comes to the marks of the snapshot. -/
theorem Jobs.Stepped.marksOf {i : Jobs.Input} {j j' : Running} (hst : Jobs.Stepped i s j s' j')
    (hfn : j.fn = applyFn mode s₀) (h : j.phase.MarksOf s₀) : j'.phase.MarksOf s₀ := by
  cases hst with
  | opened =>
    show (Jobs.begin j.fn).MarksOf s₀
    rw [hfn]
    trivial
  | lockFailed | refreshFailed | switched | switchFailed => exact rebuildReturned_marks _ hfn
  | markedWorkload hphase =>
    rw [hphase] at h
    exact h
  | markedInput hphase =>
    rw [hphase] at h
    exact ⟨fun id hid => h.1 id (List.mem_cons_of_mem _ hid), h.2⟩
  | markedSecret hphase =>
    rw [hphase] at h
    exact ⟨h.1, fun id hid => h.2 id (List.mem_cons_of_mem _ hid)⟩
  | _ => trivial

/-- A request that leaves what the job marks. -/
theorem Sparing.request (h : Sparing s₀ mode s) (hfl : s.inFlight = true) {r : Request} {faults : List Bool}
    (hspares : sparesSnapshot s₀ s (.request r faults) = true) : Sparing s₀ mode (s.handle r faults) := by
  have hkept := s.handle_kept r faults
  unfold sparesSnapshot at hspares
  simp only [Bool.and_eq_true, List.all_eq_true, bne_iff_ne] at hspares
  obtain ⟨⟨hinputs, hsecrets⟩, -⟩ := hspares
  refine ⟨h.job.step (e := .request r faults) hfl rfl, fun f hf => ?_, fun x hx => ?_, fun j hj => ?_⟩
  -- a mark does not change the name, by which a request finds what it edits
  · obtain ⟨y, hy, heq⟩ := h.inputs f hf
    have hname : y.name = f.name := show (unapplied y).name = (unapplied f).name by rw [heq]
    exact ⟨y, hkept.inputs y hy (hname ▸ hinputs f hf), heq⟩
  · obtain ⟨y, hy, heq⟩ := h.secrets x hx
    have hname : y.name = x.name := show (unapplied y).name = (unapplied x).name by rw [heq]
    exact ⟨y, hkept.secrets y hy (hname ▸ hsecrets x hx), heq⟩
  · cases s.handle_slot r faults with
    | kept hjob =>
      rw [hjob] at hj
      exact h.marks j hj
    | claimed hfree => exact absurd (h.job.held hfl) (by rw [hfree]; exact nofun)

theorem Sparing.step (h : Sparing s₀ mode s) {e : Event} (hfl : s.inFlight = true)
    (hspares : sparesSnapshot s₀ s e = true) (hs : s.step e = some s') : Sparing s₀ mode s' := by
  have hjob := h.job.step hfl hs
  cases e with
  | request r faults =>
    cases hs
    exact h.request hfl hspares
  | restart =>
    cases hs
    obtain ⟨-, hnone, -, -, jobs, hdb⟩ := s.restart_frame
    refine ⟨hjob, ?_, ?_, fun j hj => ?_⟩
    · rw [hdb]
      exact h.inputs
    · rw [hdb]
      exact h.secrets
    · rw [hnone] at hj
      cases hj
  | job i =>
    obtain ⟨j, t, j', hj, hst, rfl⟩ := Jobs.step_some hs
    have hrows : StillThere s₀.db.flakeInputs t.db.flakeInputs ∧ StillThere s₀.db.secrets t.db.secrets := by
      cases hst.marks with
      | none hi hsec =>
        rw [hi, hsec]
        exact ⟨h.inputs, h.secrets⟩
      | input _ hdb =>
        rw [hdb]
        refine ⟨h.inputs.mark ?_ ?_, h.secrets⟩
        all_goals exact fun _ => rfl
      | secret _ hdb =>
        rw [hdb]
        refine ⟨h.inputs, h.secrets.mark ?_ ?_⟩
        all_goals exact fun _ => rfl
    refine ⟨hjob, hrows.1, hrows.2, fun k hk => ?_⟩
    obtain rfl : j' = k := Option.some.inj hk
    exact hst.marksOf (h.job.job j hj) (h.marks j hj)

/-- What is marked next is a row of the snapshot. -/
theorem Sparing.guarded (h : Sparing s₀ mode s) {e : Event} (hspares : sparesSnapshot s₀ s e = true) :
    badgesGuarded s₀ s e = true := by
  cases e with
  | request r faults => exact (Bool.and_eq_true_iff.1 hspares).2
  | restart => rfl
  | job i =>
    unfold badgesGuarded
    dsimp only
    split
    · rename_i id inputs secrets hphase
      obtain ⟨j, hj, hmark⟩ := Option.map_eq_some_iff.1 hphase
      have hmarks := h.marks j hj
      rw [hmark] at hmarks
      obtain ⟨f, hf, rfl⟩ := hmarks.1 id List.mem_cons_self
      exact h.inputs.sameRow (fun _ => rfl) hf
    · rename_i id secrets hphase
      obtain ⟨j, hj, hmark⟩ := Option.map_eq_some_iff.1 hphase
      have hmarks := h.marks j hj
      rw [hmark] at hmarks
      obtain ⟨x, hx, rfl⟩ := hmarks.2 id List.mem_cons_self
      exact h.secrets.sameRow (fun _ => rfl) hx
    · rfl

theorem sparing_started {r : Request} {faults : List Bool} {page : String} {started : Job}
    (hmode : r.applyMode = some mode) (hstart : s₀.answer r faults = .jobLog page started) :
    Sparing s₀ mode (s₀.handle r faults) := by
  obtain ⟨id, -, hjob⟩ := apply_started hmode hstart
  have hkept := s₀.handle_kept r faults
  have hedits : r.editsInput = none ∧ r.editsSecret = none := by
    cases r with
    | workloadApply | flakeApply | secretApply | rebuild => exact ⟨rfl, rfl⟩
    | _ => cases hmode
  rw [hedits.1, hedits.2] at hkept
  refine ⟨carries_started hmode hstart, fun f hf => ⟨f, hkept.inputs f hf nofun, rfl⟩,
    fun x hx => ⟨x, hkept.secrets x hx nofun, rfl⟩, fun j hj => ?_⟩
  rw [hjob] at hj
  cases hj
  trivial

/-- Along a run in which no request edits or deletes what the snapshot lists, the job marks the rows it has applied,
also where inputs and secrets are added and others edited meanwhile. -/
theorem guarded_of_spared {r : Request} {faults : List Bool} {page : String} {started : Job} {es : List Event}
    (hmode : r.applyMode = some mode) (hstart : s₀.answer r faults = .jobLog page started)
    (hes : Runs.Along State.step (fun s e => s.inFlight = true ∧ sparesSnapshot s₀ s e = true)
      (s₀.handle r faults) es) :
    Runs.Along State.step (fun s e => s.inFlight = true ∧ badgesGuarded s₀ s e = true) (s₀.handle r faults) es :=
  Runs.along_of_inv (I := Sparing s₀ mode) (fun _ _ _ hp h hs => h.step hp.1 hp.2 hs)
    (fun _ _ hp h => ⟨hp.1, h.guarded hp.2⟩) hes (sparing_started hmode hstart)

/-- An input and a secret are added while the rebuild runs. -/
example : Runs.Along State.step (fun s e => s.inFlight = true ∧ sparesSnapshot inputDeclared s e = true)
    (inputDeclared.handle .rebuild []) addedDuringRebuild := by
  decide +kernel

end Sparing

end Nixbox
