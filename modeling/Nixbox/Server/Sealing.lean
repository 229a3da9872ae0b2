/-
The order of the calls by which a secret comes to be: the ciphertext under its name, and the row at
once after it. No other request inserts a row.
-/
import Nixbox.Lib.Threads
import Nixbox.Server.Footprint

namespace Nixbox

open Effect Prog Store
open Nix hiding FlakeInput

/-! ## Rows of new names -/

/-- The secret whose row a statement inserts. -/
def Write.creates {α : Type} : Write α → Option String
  | .createSecret name .. => some name
  | _ => none

/-- The name of the secret whose row is inserted. -/
def Op.creates {β : Type} : Op β → Option String
  | .write w => w.creates
  | _ => none

/-- The secret whose row is inserted next. -/
def creating {α : Type} : Prog Op α → Option String
  | .call op _ => op.creates
  | .ret _ => none

/-- Where a request stands with the ciphertext it writes. -/
inductive Sealed
  | not
  | just (file ciphertext : String)
  | done
  deriving DecidableEq, Repr

/-- After a call that writes no ciphertext. -/
def Sealed.past : Sealed → Sealed
  | .not => .not
  | _ => .done

theorem Sealed.past_ne {q : Sealed} {file ct : String} : q.past ≠ .just file ct := by
  cases q <;> exact nofun

/-- A request writes at most one ciphertext; a row is inserted at once after the ciphertext of its name
was written. -/
def sealing : Discipline Op Sealed where
  allows q op := match op with
    | .writeSecret .. => q = .not
    | op => ∀ name, op.creates = some name → ∃ ct, q = .just (secretFile name) ct
  next q op b := match op, b with
    | .writeSecret file ct, .ok _ => .just file ct
    | _, _ => q.past

section Rules

variable {α β ε : Type} {ks : List Kind} {q : Sealed}

/-- A row is inserted only where the discipline has led to it. -/
theorem sealing_creates {op : Op β} {name : String} (h : sealing.allows q op) (hop : op.creates = some name) :
    ∃ ct, q = .just (secretFile name) ct := by
  cases op with
  | writeSecret => cases hop
  | _ => exact h name hop

/-- The calls beside the ciphertext and the new row. -/
def Op.aside {β : Type} (op : Op β) : Prop := op.kind ≠ .secretFile ∧ op.creates = none

theorem creates_of_kind {op : Op β} (hr : op.kind ≠ .secretRow) : op.creates = none := by
  cases op with
  | write w => cases w <;> first | rfl | exact absurd rfl hr
  | _ => rfl

/-- Programs that write no ciphertext and insert no secret. -/
theorem uses_sealing {p : Prog Op α} (h : p.Uses fun _ op => op.aside) (hq : q.past = q) :
    p.Keeps sealing (fun _ q' => q' = q) q := by
  refine Uses.keeps h fun β op hop => ?_
  cases op with
  | writeSecret => exact absurd rfl hop.1
  | _ => exact ⟨fun name hname => (nomatch hname.symm.trans hop.2), fun _ => hq⟩

theorem within_sealing {p : Prog Op α} (h : Within ks p) (hf : .secretFile ∉ ks) (hr : .secretRow ∉ ks)
    (hq : q.past = q) : p.Keeps sealing (fun _ q' => q' = q) q := by
  refine uses_sealing (Uses.mono h fun β op hop => ⟨?_, creates_of_kind ?_⟩) hq
  · rintro heq
    exact hf (heq ▸ hop)
  · rintro heq
    exact hr (heq ▸ hop)

/-- A program that reads, then one that goes on from its result. -/
theorem reads_sealing {γ : Type} {x : ExceptT ε (Prog Op) α} {f : α → ExceptT ε (Prog Op) γ}
    {E : Except ε γ → Sealed → Prop} (hx : Within [.read] x.run) (hq : q.past = q) (he : ∀ e, E (.error e) q)
    (hf : ∀ a, Keeps sealing E q (f a).run) : Keeps sealing E q (x >>= f).run := by
  refine Keeps.seqE (P := fun _ q' => q' = q) ?_ fun a q' hq' => ?_
  · refine (within_sealing hx (by decide) (by decide) hq).mono fun r q' hq' => ?_
    subst hq'
    cases r with
    | ok _ => rfl
    | error e => exact he e
  · subst hq'
    exact hf a

/-- After an encryption that went well the ciphertext has just been written. -/
theorem encryptSecret_sealing (name plaintext : String) :
    Keeps sealing (fun r q => ∀ u, r = .ok u → ∃ ct, q = .just (secretFile name) ct) .not
      (Server.encryptSecret name plaintext).run := by
  refine reads_sealing (within_call (List.mem_singleton_self _)) rfl (fun _ => nofun) fun ct => ?_
  unfold writeSecret checked
  split
  · exact keeps_throw.2 nofun
  · refine keeps_perform rfl fun r _ => ?_
    cases r with
    | ok _ => exact fun _ _ => ⟨ct, rfl⟩
    | error _ => exact nofun

end Rules

/-! ## The handlers -/

namespace Server

/-- The row of a secret, right after its ciphertext. -/
theorem createSecret_sealing {name owner group mode : String} {mounts : List ID} {q : Sealed} {ct : String}
    (hq : q = .just (secretFile name) ct) :
    Keeps sealing (fun _ _ => True) q (createSecret name owner group mode mounts).run := by
  subst hq
  refine Keeps.seqE (P := fun _ q => q = .done) ?_ fun id q hq => ?_
  · refine keeps_perform (fun n hn => by cases hn; exact ⟨ct, rfl⟩) fun r _ => ?_
    cases r with
    | ok _ => rfl
    | error _ => trivial
  · subst hq
    have hread : Within [.read] (Store.secretByID id).run :=
      within_bind (within_query (by decide)) fun _ => within_bind (within_query (by decide)) fun _ => within_pure _
    exact (within_sealing hread (by decide) (by decide) rfl).mono fun _ _ _ => trivial

theorem createSecretAt_sealing (back name : String) (form : SecretForm) (mounts : SecretFields → List ID) :
    Keeps sealing (fun _ _ => True) .not (createSecretAt back name form mounts).run := by
  unfold createSecretAt
  dsimp only
  split
  · exact keeps_return.2 trivial
  refine reads_sealing (within_attempt (parseSecretForm_within (by decide) form)) rfl (fun _ => trivial) fun r => ?_
  split
  · exact keeps_return.2 trivial
  split
  · exact keeps_return.2 trivial
  refine reads_sealing (within_attempt (secretByName_within (by decide) name)) rfl (fun _ => trivial) fun r => ?_
  split
  · exact keeps_return.2 trivial
  · exact keeps_throw.2 trivial
  refine Keeps.seqE (P := fun r q => ∀ u, r = .ok u → ∃ ct, q = .just (secretFile name) ct)
    (keeps_lift.2 (encryptSecret_sealing name _)) fun r q hr => ?_
  split
  · exact keeps_return.2 trivial
  obtain ⟨ct, hq⟩ := hr () rfl
  refine Keeps.seqE (P := fun _ _ => True) (keeps_adapt.2 ?_) fun _ _ _ => keeps_return.2 trivial
  exact (createSecret_sealing hq).mono fun r _ _ => by cases r <;> trivial

theorem handleSecretSave_sealing (name : String) (form : SecretForm) :
    Keeps sealing (fun _ _ => True) .not (handleSecretSave name form).run := by
  refine reads_sealing (lookupSecret_within (by decide) name) rfl (fun _ => trivial) fun sec => ?_
  refine reads_sealing (within_attempt (parseSecretForm_within (by decide) form)) rfl (fun _ => trivial) fun r => ?_
  split
  · exact keeps_return.2 trivial
  refine Keeps.seqE (P := fun _ _ => True) (keeps_lift.2 ?_) fun r q _ => ?_
  · split
    · exact keeps_return.2 trivial
    · exact (encryptSecret_sealing _ _).mono fun _ _ _ => trivial
  split
  · exact keeps_return.2 trivial
  · refine Keeps.seqE (P := fun _ _ => True) (keeps_adapt.2 ?_) fun _ _ _ => keeps_return.2 trivial
    refine keeps_perform (fun n hn => by cases hn) fun r _ => ?_
    cases r <;> trivial

theorem setWorkloadSecretMount_sealing (name secret : String) (attach : Bool) :
    Keeps sealing (fun _ _ => True) .not (setWorkloadSecretMount name secret attach).run := by
  refine reads_sealing (secretsWorkload_within (by decide) name) rfl (fun _ => trivial) fun wl => ?_
  split
  · exact keeps_return.2 trivial
  refine reads_sealing (within_attempt (secretByName_within (by decide) secret)) rfl (fun _ => trivial) fun r => ?_
  split
  · exact keeps_throw.2 trivial
  · exact keeps_throw.2 trivial
  have htouch : ∀ n sid, Uses (fun _ op => op.aside) (touchOnChange n sid).run := by
    intro n sid
    unfold touchOnChange
    split
    · exact uses_return _
    · exact uses_perform ⟨nofun, rfl⟩
  refine Keeps.seqE (P := fun _ _ => True) (keeps_adapt.2 ?_) fun _ _ _ => keeps_return.2 trivial
  refine (uses_sealing ?_ rfl).mono fun r _ _ => by cases r <;> trivial
  split
  · exact uses_exceptT_bind (uses_perform ⟨nofun, rfl⟩) fun n => htouch n _
  · exact uses_exceptT_bind (uses_perform ⟨nofun, rfl⟩) fun n => htouch n _

theorem handleSecretDelete_sealing (name : String) :
    Keeps sealing (fun _ _ => True) .not (handleSecretDelete name).run := by
  refine reads_sealing (lookupSecret_within (by decide) name) rfl (fun _ => trivial) fun sec => ?_
  refine Keeps.seqE (P := fun _ _ => True) (keeps_adapt.2 ?_) fun _ _ _ => keeps_return.2 trivial
  exact keeps_perform (fun n hn => by cases hn) fun r _ => by cases r <;> trivial

/-- Every request keeps to the order. -/
theorem serve_sealing (r : Request) : (serve r).Keeps sealing (fun _ _ => True) .not := by
  have hanswer : ∀ {h : Handler Response}, Keeps sealing (fun _ _ => True) .not h.run →
      h.answer.Keeps sealing (fun _ _ => True) .not := by
    intro h hh
    refine keeps_bind.2 (hh.mono fun r q _ => ?_)
    cases r with
    | ok _ => exact keeps_ret.2 trivial
    | error _ => exact keeps_ret.2 trivial
  cases r with
  | secretCreate name form => exact hanswer (createSecretAt_sealing _ _ form _)
  | workloadSecretCreate name secret form =>
    refine hanswer (reads_sealing (secretsWorkload_within (by decide) name) rfl (fun _ => trivial) fun wl => ?_)
    exact createSecretAt_sealing _ _ form _
  | secretSave name form => exact hanswer (handleSecretSave_sealing name form)
  | workloadSecretAttach name secret => exact hanswer (setWorkloadSecretMount_sealing name secret true)
  | workloadSecretDetach name secret => exact hanswer (setWorkloadSecretMount_sealing name secret false)
  | secretDelete name => exact hanswer (handleSecretDelete_sealing name)
  | _ =>
    refine (within_sealing (serve_within _) ?_ ?_ rfl).mono fun _ _ _ => trivial
    all_goals simp

end Server

end Nixbox
