/-
The plaintext of a secret goes to the encryption and nowhere else: if that cannot tell two values apart,
then neither the database nor a file nor the job nor any answer does, however the requests overlap.
-/
import Nixbox.Lib.Mirror
import Nixbox.Service.Frames
import Nixbox.Service.Threads

namespace Nixbox

open Effect Prog Store Server

/-! ## What may differ -/

section Differ

variable (h : Host)

/-- The values posted are both blank or neither is, and the host encrypts them to the same. -/
structure SameSealed (value value' : String) : Prop where
  blank : Go.replaceCRLF value = "" ↔ Go.replaceCRLF value' = ""
  sealed : ∀ n, h.encrypt n (Go.replaceCRLF value) = h.encrypt n (Go.replaceCRLF value')

/-- The forms differ in the value at most. -/
def SameForm (f f' : SecretForm) : Prop := f' = { f with value := f'.value } ∧ SameSealed h f.value f'.value

/-- The requests differ in the value of a secret at most. -/
inductive SameRequest : Request → Request → Prop
  | same (r : Request) : SameRequest r r
  | secretCreate (name : String) {f f' : SecretForm} (hf : SameForm h f f') :
    SameRequest (.secretCreate name f) (.secretCreate name f')
  | workloadSecretCreate (name secret : String) {f f' : SecretForm} (hf : SameForm h f f') :
    SameRequest (.workloadSecretCreate name secret f) (.workloadSecretCreate name secret f')
  | secretSave (name : String) {f f' : SecretForm} (hf : SameForm h f f') :
    SameRequest (.secretSave name f) (.secretSave name f')

/-- The calls differ in the plaintext to encrypt at most. -/
inductive SameCall : ∀ β : Type, Op β → Op β → Prop
  | same {β : Type} (op : Op β) : SameCall β op op
  | encrypt {v v' : String} (hv : ∀ n, h.encrypt n v = h.encrypt n v') : SameCall _ (.encrypt v) (.encrypt v')

/-- What the checks make of the forms: the same up to the value. -/
structure SameFields (f f' : SecretFields) : Prop where
  eq : f' = { f with value := f'.value }
  blank : f.value = "" ↔ f'.value = ""
  sealed : ∀ n, h.encrypt n f.value = h.encrypt n f'.value

end Differ

/-! ## The handlers -/

section Handlers

variable {h : Host} {f f' : SecretForm} {name plaintext plaintext' : String}

theorem sameCall_refl (β : Type) (op : Op β) : SameCall h β op op := .same op

theorem masks_sameCall : Masks (SameCall h) fun s s' : State => s = s' ∧ s.host = h where
  exec {β op op' s s'} hop hs := by
    obtain ⟨rfl, hs⟩ := hs
    have hkept : ∀ {β : Type} (op : Op β), (Calls.exec op s).2.host = h := fun op =>
      (exec_frame (List.mem_singleton_self _) s).host.trans hs
    cases hop with
    | same => exact ⟨rfl, rfl, hkept op⟩
    | encrypt hv =>
      refine ⟨?_, rfl, hkept _⟩
      show s.host.encrypt s.ticks _ = s.host.encrypt s.ticks _
      rw [hs]
      exact hv _
  fault hop := by
    cases hop <;> rfl

theorem parseSecretForm_mirrors (hf : SameForm h f f') :
    MirrorsE (SameCall h) (SameFields h) (parseSecretForm f) (parseSecretForm f') := by
  obtain ⟨heq, hsealed⟩ := hf
  rw [heq]
  unfold parseSecretForm
  dsimp only
  split
  · exact mirrorsE_throw _
  split
  · exact mirrorsE_throw _
  refine (MirrorsE.refl sameCall_refl _).bind fun mounts mounts' hmounts => ?_
  cases hmounts
  exact mirrorsE_return ⟨rfl, hsealed.blank, hsealed.sealed⟩

theorem encryptSecret_mirrors (name : String) (hv : ∀ n, h.encrypt n plaintext = h.encrypt n plaintext') :
    MirrorsE (SameCall h) Eq (encryptSecret name plaintext) (encryptSecret name plaintext') := by
  refine MirrorsE.bind (Q := Eq) ?_ fun ct ct' hct => ?_
  · refine (mirrors_perform (.encrypt hv)).mono fun r r' hr => ?_
    cases hr
    cases r <;> rfl
  · cases hct
    exact .refl sameCall_refl _

/-- The result of a form that was checked, for a handler that goes on after an error. -/
theorem attempt_mirrors {α α' ε ε' : Type} {Q : α → α' → Prop} {x : ExceptT ε (Prog Op) α}
    {x' : ExceptT ε (Prog Op) α'} (hx : MirrorsE (SameCall h) Q x x') : MirrorsE (SameCall h) (ExceptRel Q)
      (attempt x : ExceptT ε' (Prog Op) (Except ε α)) (attempt x' : ExceptT ε' (Prog Op) (Except ε α')) :=
  mirrorsE_lift hx

theorem createSecretAt_mirrors (hf : SameForm h f f') (back name : String) {mounts : SecretFields → List ID}
    (hmounts : ∀ f f', SameFields h f f' → mounts f = mounts f') :
    MirrorsE (SameCall h) Eq (createSecretAt back name f mounts) (createSecretAt back name f' mounts) := by
  unfold createSecretAt
  dsimp only
  split
  · exact .refl sameCall_refl _
  refine (attempt_mirrors (parseSecretForm_mirrors hf)).bind fun r r' hr => ?_
  match r, r', hr with
  | .error m, .error m', hr =>
    cases hr
    exact .refl sameCall_refl _
  | .ok g, .ok g', hr =>
    have hvalue : (g.value = "") = (g'.value = "") := propext hr.blank
    have hrow : g'.owner = g.owner ∧ g'.group = g.group ∧ g'.mode = g.mode := by
      rw [hr.eq]
      exact ⟨rfl, rfl, rfl⟩
    dsimp only
    simp only [hvalue, hrow.1, hrow.2.1, hrow.2.2, ← hmounts g g' hr]
    split
    · exact .refl sameCall_refl _
    refine (MirrorsE.refl sameCall_refl _).bind fun found found' hfound => ?_
    cases hfound
    split
    · exact .refl sameCall_refl _
    · exact .refl sameCall_refl _
    refine (attempt_mirrors (encryptSecret_mirrors name hr.sealed)).bind fun r r' hr => ?_
    match r, r', hr with
    | .error e, .error e', hr =>
      cases hr
      exact .refl sameCall_refl _
    | .ok (), .ok (), _ => exact .refl sameCall_refl _

theorem handleSecretSave_mirrors (hf : SameForm h f f') (name : String) :
    MirrorsE (SameCall h) Eq (handleSecretSave name f) (handleSecretSave name f') := by
  unfold handleSecretSave
  refine (MirrorsE.refl sameCall_refl _).bind fun sec sec' hsec => ?_
  cases hsec
  refine (attempt_mirrors (parseSecretForm_mirrors hf)).bind fun r r' hr => ?_
  match r, r', hr with
  | .error m, .error m', hr =>
    cases hr
    exact .refl sameCall_refl _
  | .ok g, .ok g', hr =>
    have hvalue : (g.value = "") = (g'.value = "") := propext hr.blank
    have hrow : g'.owner = g.owner ∧ g'.group = g.group ∧ g'.mode = g.mode ∧ g'.mounts = g.mounts := by
      rw [hr.eq]
      exact ⟨rfl, rfl, rfl, rfl⟩
    dsimp only
    simp only [hvalue, hrow.1, hrow.2.1, hrow.2.2.1, hrow.2.2.2]
    refine (attempt_mirrors (Q := Eq) ?_).bind fun r r' hr => ?_
    · split
      · exact .refl sameCall_refl _
      · exact encryptSecret_mirrors sec.name hr.sealed
    match r, r', hr with
    | .error e, .error e', hr =>
      cases hr
      exact .refl sameCall_refl _
    | .ok (), .ok (), _ => exact .refl sameCall_refl _

theorem answered_mirrors {x x' : Handler Response} (hx : MirrorsE (SameCall h) Eq x x') :
    Prog.Mirrors (SameCall h) Eq x.answer x'.answer := by
  unfold Handler.answer
  refine Mirrors.bind hx fun a a' ha => ?_
  cases a with
  | error e =>
    cases a' with
    | error e' => exact .ret ha
    | ok a' => exact ha.elim
  | ok a =>
    cases a' with
    | error e' => exact ha.elim
    | ok a' => exact .ret ha

theorem serve_mirrors {r r' : Request} (hr : SameRequest h r r') :
    Prog.Mirrors (SameCall h) Eq (serve r) (serve r') := by
  have hmounts : ∀ f f' : SecretFields, SameFields h f f' → f.mounts = f'.mounts := by
    intro f f' hf
    rw [hf.eq]
  cases hr with
  | same => exact .refl sameCall_refl _
  | secretCreate name hf =>
    show Prog.Mirrors _ _ (handleSecretCreate _ _).answer (handleSecretCreate _ _).answer
    exact answered_mirrors (createSecretAt_mirrors hf _ _ hmounts)
  | workloadSecretCreate name secret hf =>
    show Prog.Mirrors _ _ (handleWorkloadSecretCreate _ _ _).answer (handleWorkloadSecretCreate _ _ _).answer
    refine answered_mirrors ((MirrorsE.refl sameCall_refl _).bind fun wl wl' hwl => ?_)
    cases hwl
    exact createSecretAt_mirrors hf _ _ fun _ _ _ => rfl
  | secretSave name hf =>
    show Prog.Mirrors _ _ (handleSecretSave _ _).answer (handleSecretSave _ _).answer
    exact answered_mirrors (handleSecretSave_mirrors hf name)

end Handlers

/-! ## Every run -/

/-- The answer of a request that was handled to the end. -/
def Thread.answer (t : Thread) : Option Response :=
  match t.prog with
  | .ret a => some a
  | .call .. => none

/-- What can be seen of a pool: its state, and the answers given so far. -/
def Pool.observed (p : Pool) : State × List (Option Response) := (p.state, p.threads.map Thread.answer)

theorem answer_mirrors {R : ∀ β : Type, Op β → Op β → Prop} {t t' : Thread}
    (h : Prog.Mirrors R Eq t.prog t'.prog) :
    t.answer = t'.answer := by
  obtain ⟨r, p⟩ := t
  obtain ⟨r', p'⟩ := t'
  cases h with
  | ret ha => exact congrArg some ha
  | call _ _ => rfl

/-- Two runs that post other values, which the host encrypts to the same, cannot be told apart. -/
theorem plaintexts_sealed {h : Host} {ms ms' : List Move}
    (hms : List.Forall₂ (Pool.MirrorsMove (SameRequest h)) ms ms') :
    (Service.run (Service.fresh h) ms).map Pool.observed = (Service.run (Service.fresh h) ms').map Pool.observed := by
  have henv : ∀ (i : Jobs.Input) (s s' : State), s = s' ∧ s.host = h →
      Option.Rel (fun s s' => s = s' ∧ s.host = h) (Jobs.step i s) (Jobs.step i s') := by
    rintro i s _ ⟨rfl, hs⟩
    cases hstep : Jobs.step i s with
    | none => exact .none
    | some t =>
      obtain ⟨j, u, j', -, hstepped, rfl⟩ := Jobs.step_some hstep
      exact .some ⟨rfl, hstepped.frame.2.2.1.trans hs⟩
  have hstart : Effect.Pool.Mirrors (SameCall h) (fun s s' => s = s' ∧ s.host = h) (SameRequest h)
      (Service.fresh h) (Service.fresh h) := ⟨⟨rfl, rfl⟩, .nil⟩
  have hbody : ∀ r r', SameRequest h r r' → Prog.Mirrors (SameCall h) Eq (serve r) (serve r') :=
    fun _ _ => serve_mirrors
  have hrun := hstart.run masks_sameCall hbody henv hms
  unfold Service.run
  generalize Effect.Pool.run serve Jobs.step (Service.fresh h) ms = o at hrun
  generalize Effect.Pool.run serve Jobs.step (Service.fresh h) ms' = o' at hrun
  cases hrun with
  | none => rfl
  | @some p p' hp =>
    have hanswers : List.Forall₂ Eq (p.threads.map Thread.answer) (p'.threads.map Thread.answer) := by
      rw [List.forall₂_map_left_iff, List.forall₂_map_right_iff]
      exact hp.threads.imp fun _ _ ht => answer_mirrors ht.2
    rw [List.forall₂_eq_eq_eq] at hanswers
    show some _ = some _
    unfold Pool.observed
    rw [hp.state.1, hanswers]

/-- A host whose ciphertexts are all the same. -/
def opaqueHost : Host := { exampleHost with encrypt := fun _ _ => .ok "age" }

theorem plaintexts_sealed_token :
    (Service.run (Service.fresh opaqueHost)
        (.start (.secretCreate "token" ⟨"", "", "", "s3cret", []⟩) :: calls 0 6)).map Pool.observed =
      (Service.run (Service.fresh opaqueHost)
        (.start (.secretCreate "token" ⟨"", "", "", "hunter2", []⟩) :: calls 0 6)).map Pool.observed := by
  have hsealed : SameSealed opaqueHost "s3cret" "hunter2" := ⟨by decide +kernel, fun _ => rfl⟩
  refine plaintexts_sealed (.cons (.start (.secretCreate "token" ⟨rfl, hsealed⟩)) ?_)
  exact .cons (.call 0 false) (.cons (.call 0 false) (.cons (.call 0 false) (.cons (.call 0 false)
    (.cons (.call 0 false) (.cons (.call 0 false) .nil)))))

end Nixbox
