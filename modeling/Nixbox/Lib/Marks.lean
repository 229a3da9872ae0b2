/-
Runs in which given calls fail, one mark for each call in order. `EndsMarked` is the weakest
precondition for one choice of failing calls; its postcondition also gets the marks that are left.
-/
import Nixbox.Lib.Program

namespace Effect

/-- None of the next `n` calls is marked. -/
def Unmarked (fs : List Bool) (n : Nat) : Prop := true ∉ fs.take n

instance (fs : List Bool) (n : Nat) : Decidable (Unmarked fs n) := inferInstanceAs (Decidable (true ∉ fs.take n))

theorem unmarked_zero (fs : List Bool) : Unmarked fs 0 := by
  unfold Unmarked
  simp

theorem unmarked_succ {fs : List Bool} {n : Nat} :
    Unmarked fs (n + 1) ↔ fs.headD false = false ∧ Unmarked fs.tail n := by
  unfold Unmarked
  cases fs with
  | nil => simp
  | cons f fs => cases f <;> simp

theorem unmarked_two {fs : List Bool} : Unmarked fs 2 ↔ fs.headD false = false ∧ fs.tail.headD false = false := by
  rw [unmarked_succ, unmarked_succ]
  exact and_congr_right fun _ => and_iff_left (unmarked_zero _)

theorem unmarked_add {fs : List Bool} {m n : Nat} :
    Unmarked fs (m + n) ↔ Unmarked fs m ∧ Unmarked (fs.drop m) n := by
  unfold Unmarked
  rw [List.take_add, List.mem_append, not_or]

theorem drop_two (fs : List Bool) : fs.drop 2 = fs.tail.tail := by
  rw [← List.drop_one, ← List.drop_one, List.drop_drop]

namespace Prog

universe u

variable {Op : Type → Type u} {α β ε σ : Type} [Calls Op σ]

/-- The run from `s` in which the marked calls fail, those that can, ends in `Q`. -/
def EndsMarked (Q : α → σ → List Bool → Prop) : Prog Op α → List Bool → σ → Prop
  | ret a, fs, s => Q a s fs
  | call op k, fs, s =>
    match fs.headD false, Calls.fault op with
    | true, some b => (k b).EndsMarked Q fs.tail s
    | _, _ => (k (Calls.exec op s).1).EndsMarked Q fs.tail (Calls.exec op s).2

variable {fs : List Bool} {s : σ}

theorem endsMarked_iff {Q : α → σ → Prop} {p : Prog Op α} :
    p.EndsMarked (fun a s' _ => Q a s') fs s ↔ Q (p.runWith fs s).1 (p.runWith fs s).2 := by
  induction p generalizing fs s with
  | ret a => exact Iff.rfl
  | call op k ih =>
    unfold EndsMarked Prog.runWith
    generalize fs.headD false = marked
    cases Calls.fault op with
    | none => cases marked <;> exact ih _
    | some b => cases marked <;> exact ih _

theorem EndsMarked.mono {Q Q' : α → σ → List Bool → Prop} {p : Prog Op α} (h : p.EndsMarked Q fs s)
    (hQ : ∀ a s' fs', Q a s' fs' → Q' a s' fs') : p.EndsMarked Q' fs s := by
  induction p generalizing fs s with
  | ret a => exact hQ _ _ _ h
  | call op k ih =>
    unfold EndsMarked at h ⊢
    generalize fs.headD false = marked at h ⊢
    cases hop : Calls.fault op with
    | none =>
      rw [hop] at h
      cases marked <;> exact ih _ h
    | some b =>
      rw [hop] at h
      cases marked <;> exact ih _ h

theorem endsMarked_pure {Q : α → σ → List Bool → Prop} {a : α} :
    (pure a : Prog Op α).EndsMarked Q fs s ↔ Q a s fs :=
  Iff.rfl

/-- A call that cannot fail. -/
theorem endsMarked_perform {Q : α → σ → List Bool → Prop} {op : Op α} (hop : Calls.fault op = none) :
    (perform op).EndsMarked Q fs s ↔ Q (Calls.exec op s).1 (Calls.exec op s).2 fs.tail := by
  unfold perform EndsMarked
  rw [hop]
  cases fs.headD false <;> exact Iff.rfl

/-- A call that fails if it is marked. -/
theorem endsMarked_perform_fault {Q : α → σ → List Bool → Prop} {op : Op α} {b : α}
    (hop : Calls.fault op = some b) :
    (perform op).EndsMarked Q fs s ↔
      if fs.headD false then Q b s fs.tail else Q (Calls.exec op s).1 (Calls.exec op s).2 fs.tail := by
  unfold perform EndsMarked
  rw [hop]
  cases fs.headD false <;> exact Iff.rfl

theorem endsMarked_bind {Q : β → σ → List Bool → Prop} {p : Prog Op α} {f : α → Prog Op β} :
    (p >>= f).EndsMarked Q fs s ↔ p.EndsMarked (fun a s' fs' => (f a).EndsMarked Q fs' s') fs s := by
  induction p generalizing fs s with
  | ret a => exact Iff.rfl
  | call op k ih =>
    show EndsMarked Q (call op fun b => (k b).bind f) fs s ↔ _
    unfold EndsMarked
    generalize fs.headD false = marked
    cases Calls.fault op with
    | none => cases marked <;> exact ih _
    | some b => cases marked <;> exact ih _

/-! ## Programs that may stop early -/

theorem endsMarked_exceptT_bind {Q : Except ε β → σ → List Bool → Prop} {x : ExceptT ε (Prog Op) α}
    {f : α → ExceptT ε (Prog Op) β} : EndsMarked Q (x >>= f).run fs s ↔
      EndsMarked (fun r s' fs' => match r with
        | .ok a => EndsMarked Q (f a).run fs' s'
        | .error e => Q (.error e) s' fs') x.run fs s := by
  rw [ExceptT.run_bind, endsMarked_bind]
  constructor <;> refine fun h => h.mono fun r s' fs' hr => ?_ <;> cases r <;> exact hr

theorem endsMarked_return {Q : Except ε α → σ → List Bool → Prop} {a : α} :
    EndsMarked Q (pure a : ExceptT ε (Prog Op) α).run fs s ↔ Q (.ok a) s fs := Iff.rfl

theorem endsMarked_throw {Q : Except ε α → σ → List Bool → Prop} {e : ε} :
    EndsMarked Q (throw e : ExceptT ε (Prog Op) α).run fs s ↔ Q (.error e) s fs := Iff.rfl

theorem endsMarked_lift {Q : Except ε α → σ → List Bool → Prop} {p : Prog Op α} :
    EndsMarked Q (ExceptT.lift p : ExceptT ε (Prog Op) α).run fs s ↔ p.EndsMarked (fun a => Q (.ok a)) fs s := by
  show EndsMarked Q (Except.ok <$> p) fs s ↔ _
  rw [← bind_pure_comp, endsMarked_bind]
  exact Iff.rfl

theorem endsMarked_adapt {ε' : Type} {Q : Except ε' α → σ → List Bool → Prop}
    {x : ExceptT ε (Prog Op) α} {g : ε → ε'} :
    EndsMarked Q (x.adapt g).run fs s ↔ EndsMarked (fun r => Q (r.mapError g)) x.run fs s := by
  show EndsMarked Q (Except.mapError g <$> x.run) fs s ↔ _
  rw [← bind_pure_comp, endsMarked_bind]
  exact Iff.rfl

attribute [irreducible] EndsMarked

end Prog

end Effect
