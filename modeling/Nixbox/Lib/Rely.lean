/-
Programs among others that may rely on an invariant: an answer comes from a state where it holds, and every
call is of a kind that keeps it. Then the invariant holds throughout a run of any number of such programs,
however their calls come between each other, and every call that was made is of the kind.
-/
import Nixbox.Lib.Threads

namespace Effect

universe u

/-- An answer of the call: in some state where `I` holds, or by failing. -/
def Calls.AnswersWhere {Op : Type → Type u} {σ β : Type} [Calls Op σ] (I : σ → Prop)
    (op : Op β) (b : β) : Prop :=
  (∃ s : σ, I s ∧ (Calls.exec op s).1 = b) ∨ Calls.fault op = some b

namespace Prog

variable {Op : Type → Type u} {α β σ ε : Type} [Calls Op σ]

/-- Every call satisfies `P`, and the program returns what satisfies `E`, if answers come from where `I` holds. -/
def Relies (I : σ → Prop) (P : ∀ β : Type, Op β → Prop) (E : α → Prop) : Prog Op α → Prop
  | ret a => E a
  | call op k => P _ op ∧ ∀ b, Calls.AnswersWhere I op b → (k b).Relies I P E

section Rules

variable {I : σ → Prop} {P : ∀ β : Type, Op β → Prop} {E : α → Prop}

theorem relies_pure {a : α} : (pure a : Prog Op α).Relies I P E ↔ E a := Iff.rfl

theorem Relies.mono {E' : α → Prop} {p : Prog Op α} (h : p.Relies I P E) (hE : ∀ a, E a → E' a) :
    p.Relies I P E' := by
  induction p with
  | ret a => exact hE a h
  | call op k ih => exact ⟨h.1, fun b hb => ih b (h.2 b hb)⟩

theorem relies_perform {E : β → Prop} {op : Op β} (h : P _ op) (hE : ∀ b, Calls.AnswersWhere I op b → E b) :
    (perform op).Relies I P E := ⟨h, hE⟩

theorem relies_bind {p : Prog Op α} {f : α → Prog Op β} {E : β → Prop} :
    (p >>= f).Relies I P E ↔ p.Relies I P fun a => (f a).Relies I P E := by
  induction p with
  | ret a => exact Iff.rfl
  | call op k ih => exact and_congr Iff.rfl (forall_congr' fun b => imp_congr_right fun _ => ih b)

/-- The sequence rule for programs that may stop early. -/
theorem Relies.seqE {Q : α → Prop} {E : Except ε β → Prop} {x : ExceptT ε (Prog Op) α}
    {f : α → ExceptT ε (Prog Op) β}
    (hx : x.run.Relies I P fun r => match r with | .ok a => Q a | .error e => E (.error e))
    (hf : ∀ a, Q a → Relies I P E (f a).run) : Relies I P E (x >>= f).run := by
  rw [ExceptT.run_bind, relies_bind]
  refine hx.mono fun r hr => ?_
  cases r with
  | ok a => exact hf a hr
  | error e => exact hr

theorem relies_return {E : Except ε α → Prop} {a : α} :
    Relies I P E (pure a : ExceptT ε (Prog Op) α).run ↔ E (.ok a) := Iff.rfl

theorem relies_throw {E : Except ε α → Prop} {e : ε} :
    Relies I P E (throw e : ExceptT ε (Prog Op) α).run ↔ E (.error e) := Iff.rfl

theorem relies_lift {E : Except ε α → Prop} {p : Prog Op α} :
    Relies I P E (ExceptT.lift p : ExceptT ε (Prog Op) α).run ↔ p.Relies I P fun a => E (.ok a) := by
  show Relies I P E (Except.ok <$> p) ↔ _
  rw [← bind_pure_comp, relies_bind]
  exact Iff.rfl

theorem relies_adapt {ε' : Type} {E : Except ε' α → Prop} {x : ExceptT ε (Prog Op) α} {g : ε → ε'} :
    Relies I P E (x.adapt g).run ↔ x.run.Relies I P fun r => E (r.mapError g) := by
  show Relies I P E (Except.mapError g <$> x.run) ↔ _
  rw [← bind_pure_comp, relies_bind]
  exact Iff.rfl

/-- Of what a program returns nothing is known from its calls alone. -/
theorem Uses.relies {p : Prog Op α} (h : p.Uses P) : p.Relies I P fun _ => True := by
  induction p with
  | ret a => trivial
  | call op k ih => exact ⟨(uses_call.1 h).1, fun b _ => ih b ((uses_call.1 h).2 b)⟩

theorem relies_forEach {f : α → ExceptT ε (Prog Op) β} {l : List α}
    (hf : ∀ a ∈ l, (f a).run.Relies I P fun _ => True) : (forEach f l).run.Relies I P fun _ => True := by
  induction l with
  | nil => trivial
  | cons a l ih =>
    refine Relies.seqE (Q := fun _ => True) ((hf a (.head _)).mono fun r _ => ?_) fun b _ => ?_
    · cases r <;> trivial
    · refine Relies.seqE (Q := fun _ => True) ((ih fun b hb => hf b (.tail _ hb)).mono fun r _ => ?_) fun _ _ =>
        trivial
      cases r <;> trivial

/-- The next call of such a program, where the invariant holds. -/
theorem Advanced.relies {fails : Bool} {p p' : Prog Op α} {s s' : σ} {c : Exchange Op}
    (h : Advanced fails p s c p' s') (hs : I s) (hp : p.Relies I P E) : P _ c.op ∧ p'.Relies I P E := by
  cases h with
  | made => exact ⟨hp.1, hp.2 _ (.inl ⟨s, hs, rfl⟩)⟩
  | failed _ hb => exact ⟨hp.1, hp.2 _ (.inr hb)⟩

end Rules

attribute [irreducible] Relies

end Prog

namespace Pool

variable {Op : Type → Type u} {α σ ι η : Type} [Calls Op σ]

/-- The invariant holds, each thread relies on it, and every call so far was of the kind. -/
structure Relying (I : σ → Prop) (P : ∀ β : Type, Op β → Prop) (p : Pool Op σ ι α) : Prop where
  state : I p.state
  threads : ∀ t ∈ p.threads, t.prog.Relies I P fun _ => True
  log : ∀ e ∈ p.log, P _ e.op

variable {I : σ → Prop} {P : ∀ β : Type, Op β → Prop} {body : ι →
  Prog Op α} {env : η → σ → Option σ}
  {p p' : Pool Op σ ι α}

theorem Relying.step (hbody : ∀ i, (body i).Relies I P fun _ => True)
    (hcall : ∀ {β : Type} {op : Op β} {s : σ}, P _ op → I s → I (Calls.exec op s).2)
    (henv : ∀ {e s s'}, env e s = some s' → I s → I s') (h : Relying I P p) {m : Move ι η}
    (hs : step body env p m = some p') : Relying I P p' := by
  cases m with
  | start i =>
    cases hs
    refine ⟨h.state, fun t ht => ?_, h.log⟩
    rcases List.mem_append.1 ht with ht | ht
    · exact h.threads t ht
    · rw [List.mem_singleton.1 ht]
      exact hbody i
  | env e =>
    obtain ⟨s, hacted, rfl⟩ := step_env hs
    exact ⟨henv hacted h.state, h.threads, h.log⟩
  | call k fails =>
    obtain ⟨t, c, prog, ht, hadv, hthreads, hlog⟩ := step_call hs
    obtain ⟨hop, hrest⟩ := hadv.relies h.state (h.threads t (List.mem_of_getElem? ht))
    refine ⟨?_, fun u hu => ?_, fun e he => ?_⟩
    · rcases hadv.effect with heffect | ⟨-, heq⟩
      · have hkept := hcall hop h.state
        rw [heffect] at hkept
        exact hkept
      · rw [heq]
        exact h.state
    · rw [hthreads] at hu
      rcases List.mem_or_eq_of_mem_set hu with hu | rfl
      · exact h.threads u hu
      · exact hrest
    · rw [hlog] at he
      rcases List.mem_append.1 he with he | he
      · exact h.log e he
      · rw [List.mem_singleton.1 he]
        exact hop

/-- It goes on so in every run. -/
theorem Relying.run (hbody : ∀ i, (body i).Relies I P fun _ => True)
    (hcall : ∀ {β : Type} {op : Op β} {s : σ}, P _ op → I s → I (Calls.exec op s).2)
    (henv : ∀ {e s s'}, env e s = some s' → I s → I s') (h : Relying I P p) {ms : List (Move ι η)}
    (hs : run body env p ms = some p') : Relying I P p' :=
  Runs.exec_inv_all (I := Relying I P) (fun _ _ _ hp hstep => hp.step hbody hcall henv hstep) h hs

theorem relying_fresh {s : σ} (h : I s) : Relying I P (fresh s : Pool Op σ ι α) := ⟨h, nofun, nofun⟩

end Pool

end Effect
