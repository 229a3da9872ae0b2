/-
What a program has done on the way: whether a call of some sort was made, beside where the program
ends. A program that ends in an error may have made it all the same.
-/
import Nixbox.Lib.Program

namespace Effect

namespace Prog

universe u

variable {Op : Type → Type u} {α β σ ε : Type} [Calls Op σ]

/-- In that run a call was made that satisfies `C` with its answer. -/
def does (C : ∀ β : Type, Op β → β → Bool) : Prog Op α → List Bool → σ → Bool
  | ret _, _, _ => false
  | call op k, fs, s =>
    match fs.headD false, Calls.fault op with
    | true, some b => (k b).does C fs.tail s
    | _, _ => C _ op (Calls.exec op s).1 || (k (Calls.exec op s).1).does C fs.tail (Calls.exec op s).2

/-- Every run from `s` in which only calls of `F` fail ends in `Q`, which is told whether a call that
satisfies `C` was made. -/
def EndsHaving (F : ∀ β : Type, Op β → Bool) (C : ∀ β : Type, Op β → β → Bool)
    (Q : Bool → α → σ → Prop) : Prog Op α → σ → Prop
  | ret a, s => Q false a s
  | call op k, s =>
    (k (Calls.exec op s).1).EndsHaving F C (fun c => Q (C _ op (Calls.exec op s).1 || c)) (Calls.exec op s).2 ∧
      (F _ op = true → ∀ b, Calls.fault op = some b → (k b).EndsHaving F C Q s)

variable {F : ∀ β : Type, Op β → Bool} {C : ∀ β : Type, Op β → β → Bool}

theorem EndsHaving.runWith_of {Q : Bool → α → σ → Prop} {p : Prog Op α} {s : σ} (h : p.EndsHaving F C Q s)
    {fs : List Bool} (hfs : p.failsOnly F fs s = true) : Q (p.does C fs s) (p.runWith fs s).1 (p.runWith fs s).2 := by
  induction p generalizing Q fs s with
  | ret a => exact h
  | call op k ih =>
    unfold failsOnly at hfs
    unfold does Prog.runWith
    generalize fs.headD false = marked at hfs ⊢
    cases hop : Calls.fault op with
    | none =>
      rw [hop] at hfs
      cases marked <;> exact ih _ h.1 hfs
    | some b =>
      rw [hop] at hfs
      cases marked with
      | false => exact ih _ h.1 hfs
      | true =>
        obtain ⟨hF, hfs⟩ := Bool.and_eq_true_iff.1 hfs
        exact ih _ (h.2 hF b hop) hfs

theorem EndsHaving.mono {Q Q' : Bool → α → σ → Prop} {p : Prog Op α} {s : σ} (h : p.EndsHaving F C Q s)
    (hQ : ∀ c a s', Q c a s' → Q' c a s') : p.EndsHaving F C Q' s := by
  induction p generalizing Q Q' s with
  | ret a => exact hQ _ _ _ h
  | call op k ih => exact ⟨ih _ h.1 fun c => hQ _, fun hF b hb => ih _ (h.2 hF b hb) hQ⟩

/-! ## Rules -/

theorem endsHaving_pure {Q : Bool → α → σ → Prop} {a : α} {s : σ} :
    (pure a : Prog Op α).EndsHaving F C Q s ↔ Q false a s := Iff.rfl

theorem endsHaving_perform {Q : Bool → α → σ → Prop} {op : Op α} {s : σ} : (perform op).EndsHaving F C Q s ↔
    Q (C _ op (Calls.exec op s).1) (Calls.exec op s).1 (Calls.exec op s).2 ∧
      (F _ op = true → ∀ b, Calls.fault op = some b → Q false b s) := by
  show (Q (C _ op (Calls.exec op s).1 || false) _ _ ∧ _) ↔ _
  rw [Bool.or_false]
  exact Iff.rfl

theorem endsHaving_bind {Q : Bool → β → σ → Prop} {p : Prog Op α} {f : α → Prog Op β} {s : σ} :
    (p >>= f).EndsHaving F C Q s ↔
    p.EndsHaving F C (fun c a s' => (f a).EndsHaving F C (fun c' => Q (c || c')) s') s := by
  induction p generalizing Q s with
  | ret a =>
    show (f a).EndsHaving F C Q s ↔ (f a).EndsHaving F C (fun c' => Q (false || c')) s
    simp only [Bool.false_or]
  | call op k ih =>
    refine and_congr ((ih _).trans ?_) (imp_congr_right fun _ => forall_congr' fun b => imp_congr_right fun _ => ih _)
    simp only [Bool.or_assoc]

/-- A program that can make no such call has made none. -/
theorem EndsIf.idle {P : α → σ → Prop} {p : Prog Op α} {s : σ} (h : p.EndsIf F P s)
    (hp : p.Uses fun _ op => ∀ b, C _ op b = false) : p.EndsHaving F C (fun c a s' => c = false ∧ P a s') s := by
  induction p generalizing s with
  | ret a => exact ⟨rfl, ends_pure.1 h⟩
  | call op k ih =>
    obtain ⟨hop, hk⟩ := uses_call.1 hp
    obtain ⟨hmade, hfailed⟩ := endsIf_step.1 h
    refine ⟨(ih _ hmade (hk _)).mono fun c a s' hc => ?_, fun hF b hb => ih b (hfailed hF b hb) (hk b)⟩
    rw [hop, Bool.false_or]
    exact hc

/-! ## Programs that may stop early -/

theorem endsHaving_exceptT_bind {Q : Bool → Except ε β → σ → Prop} {x : ExceptT ε (Prog Op) α}
    {f : α → ExceptT ε (Prog Op) β} {s : σ} : EndsHaving F C Q (x >>= f).run s ↔
      EndsHaving F C (fun c r s' => match r with
        | .ok a => EndsHaving F C (fun c' => Q (c || c')) (f a).run s'
        | .error e => Q c (.error e) s') x.run s := by
  rw [ExceptT.run_bind, endsHaving_bind]
  constructor <;> refine fun h => h.mono fun c r s' hr => ?_
  · cases r with
    | ok a => exact hr
    | error e =>
      rw [← Bool.or_false c]
      exact endsHaving_pure.1 hr
  · cases r with
    | ok a => exact hr
    | error e =>
      rw [← Bool.or_false c] at hr
      exact endsHaving_pure.2 hr

/-- The sequence rule after a program that can make no such call. -/
theorem EndsIf.idleE {P : Except ε α → σ → Prop} {Q : Bool → Except ε β → σ → Prop}
    {x : ExceptT ε (Prog Op) α} {f : α → ExceptT ε (Prog Op) β} {s : σ} (hx : EndsIf F P x.run s)
    (hidle : Uses (fun _ op => ∀ b, C _ op b = false) x.run)
    (he : ∀ e s', P (.error e) s' → Q false (.error e) s')
    (hf : ∀ a s', P (.ok a) s' → EndsHaving F C Q (f a).run s') : EndsHaving F C Q (x >>= f).run s := by
  refine endsHaving_exceptT_bind.2 ((EndsIf.idle hx hidle).mono fun c r s' hr => ?_)
  obtain ⟨rfl, hr⟩ := hr
  cases r with
  | ok a =>
    simp only [Bool.false_or]
    exact hf a s' hr
  | error e => exact he e s' hr

/-- The same after a program that only reads. -/
theorem Reads.idleE {P : α → Prop} {Q : Bool → Except ε β → σ → Prop} {x : ExceptT ε (Prog Op) α}
    {f : α → ExceptT ε (Prog Op) β} {s : σ} (hx : Reads P x s)
    (hidle : Uses (fun _ op => ∀ b, C _ op b = false) x.run) (he : ∀ e, Q false (.error e) s)
    (hf : ∀ a, P a → EndsHaving F C Q (f a).run s) : EndsHaving F C Q (x >>= f).run s := by
  refine EndsIf.idleE (EndsIf.spared hx) hidle (fun e s' h => ?_) fun a s' h => ?_
  · obtain ⟨rfl, -⟩ := h
    exact he e
  · obtain ⟨rfl, ha⟩ := h
    exact hf a (ha a rfl)

theorem endsHaving_return {Q : Bool → Except ε α → σ → Prop} {a : α} {s : σ} :
    EndsHaving F C Q (pure a : ExceptT ε (Prog Op) α).run s ↔ Q false (.ok a) s := Iff.rfl

theorem endsHaving_throw {Q : Bool → Except ε α → σ → Prop} {e : ε} {s : σ} :
    EndsHaving F C Q (throw e : ExceptT ε (Prog Op) α).run s ↔ Q false (.error e) s := Iff.rfl

theorem endsHaving_adapt {ε' : Type} {Q : Bool → Except ε' α → σ → Prop}
    {x : ExceptT ε (Prog Op) α} {g : ε → ε'}
    {s : σ} : EndsHaving F C Q (x.adapt g).run s ↔ EndsHaving F C (fun c r => Q c (r.mapError g)) x.run s := by
  show EndsHaving F C Q (Except.mapError g <$> x.run) s ↔ _
  rw [← bind_pure_comp, endsHaving_bind]
  constructor <;> refine fun h => h.mono fun c r s' hr => ?_
  · rw [← Bool.or_false c]
    exact hr
  · rw [← Bool.or_false c] at hr
    exact hr

attribute [irreducible] EndsHaving

end Prog

end Effect
