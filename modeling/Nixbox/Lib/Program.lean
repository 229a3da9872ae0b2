/-
Programs over a signature of calls. A program returns, or makes one call and goes on with the
answer; what the calls do to a shared state is given apart. So one text of a program can be run
at once without failures, run at once with some of its calls failing, or advanced one call at a
time beside other programs.

`EndsIf` is the weakest precondition over the choices of failing calls, among those that may fail;
`Ends` lets every call fail. `Uses` bounds the calls a program can make, whatever the answers.
-/
import Mathlib.Tactic.Common

namespace Effect

universe u

/-- A program over the calls `Op` returning an `α`. -/
inductive Prog (Op : Type → Type u) (α : Type) : Type (max 1 u) where
  | ret (a : α)
  | call {β : Type} (op : Op β) (k : β → Prog Op α)

/-- What the calls do to a state, and what one that fails answers (it leaves the state as it
was); `none` for a call that cannot fail. -/
class Calls (Op : Type → Type u) (σ : outParam Type) where
  exec {β : Type} : Op β → σ → β × σ
  fault {β : Type} : Op β → Option β

namespace Prog

variable {Op : Type → Type u} {α β γ σ ε : Type}

/-- One program, and then one that goes on from its result. -/
def bind : Prog Op α → (α → Prog Op β) → Prog Op β
  | ret a, f => f a
  | call op k, f => call op fun b => (k b).bind f

instance : Monad (Prog Op) where
  pure := ret
  bind := bind

/-- The program of a single call. -/
def perform (op : Op β) : Prog Op β := call op ret

theorem bind_ret (p : Prog Op α) : p.bind ret = p := by
  induction p with
  | ret a => rfl
  | call op k ih => simp only [bind, ih]

theorem bind_bind (p : Prog Op α) (f : α → Prog Op β) (g : β → Prog Op γ) :
    (p.bind f).bind g = p.bind fun a => (f a).bind g := by
  induction p with
  | ret a => rfl
  | call op k ih => simp only [bind, ih]

instance : LawfulMonad (Prog Op) :=
  LawfulMonad.mk' _ bind_ret (fun _ _ => rfl) bind_bind

/-! ## Runs -/

variable [Calls Op σ]

/-- The run in which no call fails. -/
def run : Prog Op α → σ → α × σ
  | ret a, s => (a, s)
  | call op k, s => (k (Calls.exec op s).1).run (Calls.exec op s).2

/-- The run in which the calls marked `true` fail if they can; calls past the list succeed. -/
def runWith : Prog Op α → List Bool → σ → α × σ
  | ret a, _, s => (a, s)
  | call op k, fs, s =>
    match fs.headD false, Calls.fault op with
    | true, some b => (k b).runWith fs.tail s
    | _, _ => (k (Calls.exec op s).1).runWith fs.tail (Calls.exec op s).2

theorem runWith_call {op : Op β} {k : β → Prog Op α} {fs : List Bool} {s : σ} :
    (call op k).runWith fs s = match fs.headD false, Calls.fault op with
      | true, some b => (k b).runWith fs.tail s
      | _, _ => (k (Calls.exec op s).1).runWith fs.tail (Calls.exec op s).2 := by
  rw [runWith]

@[simp] theorem run_pure (a : α) (s : σ) : (pure a : Prog Op α).run s = (a, s) := rfl

@[simp] theorem run_perform (op : Op β) (s : σ) : (perform op).run s = Calls.exec op s := rfl

@[simp] theorem run_bind (p : Prog Op α) (f : α → Prog Op β) (s : σ) :
    (p >>= f).run s = (f (p.run s).1).run (p.run s).2 := by
  induction p generalizing s with
  | ret a => rfl
  | call op k ih => exact ih _ _

@[simp] theorem run_map (p : Prog Op α) (f : α → β) (s : σ) :
    (f <$> p).run s = (f (p.run s).1, (p.run s).2) := by
  rw [← bind_pure_comp, run_bind]; rfl

/-- With no call marked, nothing fails. -/
theorem runWith_nil (p : Prog Op α) (s : σ) : p.runWith [] s = p.run s := by
  induction p generalizing s with
  | ret a => rfl
  | call op k ih => exact ih _ _

/-- The calls that fail in that run are among those of `F`. -/
def failsOnly (F : ∀ β : Type, Op β → Bool) : Prog Op α → List Bool → σ → Bool
  | ret _, _, _ => true
  | call op k, fs, s =>
    match fs.headD false, Calls.fault op with
    | true, some b => F _ op && (k b).failsOnly F fs.tail s
    | _, _ => (k (Calls.exec op s).1).failsOnly F fs.tail (Calls.exec op s).2

/-! ## Postconditions -/

section Ends

variable {F : ∀ β : Type, Op β → Bool}

/-- Every run from `s` in which only calls of `F` fail ends in `Q`. -/
def EndsIf (F : ∀ β : Type, Op β → Bool) (Q : α → σ → Prop) : Prog Op α → σ → Prop
  | ret a, s => Q a s
  | call op k, s => (k (Calls.exec op s).1).EndsIf F Q (Calls.exec op s).2 ∧
      (F _ op = true → ∀ b, Calls.fault op = some b → (k b).EndsIf F Q s)

/-- Every run from `s`, whichever of its calls fail, ends in `Q`. -/
abbrev Ends (Q : α → σ → Prop) (p : Prog Op α) (s : σ) : Prop := EndsIf (fun _ _ => true) Q p s

theorem EndsIf.runWith_of {Q : α → σ → Prop} {p : Prog Op α} {s : σ} (h : p.EndsIf F Q s) {fs : List Bool}
    (hfs : p.failsOnly F fs s = true) : Q (p.runWith fs s).1 (p.runWith fs s).2 := by
  induction p generalizing fs s with
  | ret a => exact h
  | call op k ih =>
    unfold failsOnly at hfs
    unfold Prog.runWith
    split at hfs
    · rename_i b hb hop
      obtain ⟨hF, hfs⟩ := Bool.and_eq_true_iff.1 hfs
      exact ih _ (h.2 hF b hop) hfs
    · exact ih _ h.1 hfs

theorem failsOnly_true {p : Prog Op α} {fs : List Bool} {s : σ} : p.failsOnly (fun _ _ => true) fs s = true := by
  induction p generalizing fs s with
  | ret a => rfl
  | call op k ih =>
    unfold failsOnly
    split
    · rw [Bool.true_and]
      exact ih _
    · exact ih _

/-- With no call marked, none of those that may not fail does. -/
theorem failsOnly_of_unmarked {p : Prog Op α} {fs : List Bool} {s : σ} (h : true ∉ fs) :
    p.failsOnly F fs s = true := by
  induction p generalizing fs s with
  | ret a => rfl
  | call op k ih =>
    have htail : true ∉ fs.tail := fun hin => h (List.mem_of_mem_tail hin)
    unfold failsOnly
    split
    · rename_i hhead _
      cases fs with
      | nil => cases hhead
      | cons f fs =>
        rw [List.headD_cons] at hhead
        exact absurd (List.mem_cons.2 (.inl hhead.symm)) h
    · exact ih _ htail

theorem EndsIf.runWith {Q : α → σ → Prop} {p : Prog Op α} {s : σ} (h : p.Ends Q s) (fs : List Bool) :
    Q (p.runWith fs s).1 (p.runWith fs s).2 :=
  h.runWith_of failsOnly_true

theorem EndsIf.mono {Q Q' : α → σ → Prop} {p : Prog Op α} {s : σ} (h : p.EndsIf F Q s)
    (hQ : ∀ a s', Q a s' → Q' a s') : p.EndsIf F Q' s := by
  induction p generalizing s with
  | ret a => exact hQ _ _ h
  | call op k ih => exact ⟨ih _ h.1, fun hF b hb => ih _ (h.2 hF b hb)⟩

/-- With fewer calls that may fail there are fewer runs. -/
theorem EndsIf.spared {Q : α → σ → Prop} {p : Prog Op α} {s : σ} (h : p.Ends Q s) : p.EndsIf F Q s := by
  induction p generalizing s with
  | ret a => exact h
  | call op k ih => exact ⟨ih _ h.1, fun _ b hb => ih _ (h.2 rfl b hb)⟩

theorem endsIf_step {Q : α → σ → Prop} {op : Op β} {k : β → Prog Op α} {s : σ} :
    (call op k).EndsIf F Q s ↔
      (k (Calls.exec op s).1).EndsIf F Q (Calls.exec op s).2 ∧
      (F _ op = true → ∀ b, Calls.fault op = some b → (k b).EndsIf F Q s) := Iff.rfl

theorem ends_pure {Q : α → σ → Prop} {a : α} {s : σ} : (pure a : Prog Op α).EndsIf F Q s ↔ Q a s := Iff.rfl

theorem endsIf_perform {Q : β → σ → Prop} {op : Op β} {s : σ} : (perform op).EndsIf F Q s ↔
    Q (Calls.exec op s).1 (Calls.exec op s).2 ∧ (F _ op = true → ∀ b, Calls.fault op = some b → Q b s) :=
  Iff.rfl

theorem ends_perform {Q : β → σ → Prop} {op : Op β} {s : σ} : (perform op).Ends Q s ↔
    Q (Calls.exec op s).1 (Calls.exec op s).2 ∧ ∀ b, Calls.fault op = some b → Q b s :=
  endsIf_perform.trans (and_congr_right fun _ => ⟨fun h => h rfl, fun h _ => h⟩)

theorem ends_bind {Q : β → σ → Prop} {p : Prog Op α} {f : α → Prog Op β} {s : σ} :
    (p >>= f).EndsIf F Q s ↔ p.EndsIf F (fun a s' => (f a).EndsIf F Q s') s := by
  induction p generalizing s with
  | ret a => exact Iff.rfl
  | call op k ih =>
    exact and_congr (ih _) (imp_congr_right fun _ => forall_congr' fun b => imp_congr_right fun _ => ih _)

/-- The sequence rule: a postcondition of the first program that suffices for the second. -/
theorem EndsIf.seq {P : α → σ → Prop} {Q : β → σ → Prop} {p : Prog Op α} {f : α → Prog Op β} {s : σ}
    (hp : p.EndsIf F P s) (hf : ∀ a s', P a s' → (f a).EndsIf F Q s') : (p >>= f).EndsIf F Q s :=
  ends_bind.2 (hp.mono hf)

/-! ## Programs that may stop early -/

theorem run_exceptT_bind (x : ExceptT ε (Prog Op) α) (f : α → ExceptT ε (Prog Op) β) (s : σ) :
    Prog.run (x >>= f).run s = match Prog.run x.run s with
      | (.ok a, s') => Prog.run (f a).run s'
      | (.error e, s') => (.error e, s') := by
  rw [ExceptT.run_bind, run_bind]
  rcases Prog.run x.run s with ⟨_ | _, s'⟩ <;> rfl

theorem ends_exceptT_bind {Q : Except ε β → σ → Prop} {x : ExceptT ε (Prog Op) α}
    {f : α → ExceptT ε (Prog Op) β} {s : σ} : EndsIf F Q (x >>= f).run s ↔
      EndsIf F (fun r s' => match r with
        | .ok a => EndsIf F Q (f a).run s'
        | .error e => Q (.error e) s') x.run s := by
  rw [ExceptT.run_bind, ends_bind]
  constructor <;> refine fun h => h.mono fun r s' hr => ?_ <;> cases r <;> exact hr

/-- The sequence rule for programs that may stop early: stopping in the first must meet the final
postcondition. -/
theorem EndsIf.seqE {P : α → σ → Prop} {Q : Except ε β → σ → Prop} {x : ExceptT ε (Prog Op) α}
    {f : α → ExceptT ε (Prog Op) β} {s : σ}
    (hx : EndsIf F (fun r s' => match r with | .ok a => P a s' | .error e => Q (.error e) s') x.run s)
    (hf : ∀ a s', P a s' → EndsIf F Q (f a).run s') : EndsIf F Q (x >>= f).run s := by
  refine ends_exceptT_bind.2 (hx.mono fun r s' hr => ?_)
  cases r with
  | ok a => exact hf a s' hr
  | error e => exact hr

theorem ends_return {Q : Except ε α → σ → Prop} {a : α} {s : σ} :
    EndsIf F Q (pure a : ExceptT ε (Prog Op) α).run s ↔ Q (.ok a) s := Iff.rfl

theorem ends_throw {Q : Except ε α → σ → Prop} {e : ε} {s : σ} :
    EndsIf F Q (throw e : ExceptT ε (Prog Op) α).run s ↔ Q (.error e) s := Iff.rfl

theorem ends_lift {Q : Except ε α → σ → Prop} {p : Prog Op α} {s : σ} :
    EndsIf F Q (ExceptT.lift p : ExceptT ε (Prog Op) α).run s ↔ p.EndsIf F (fun a => Q (.ok a)) s := by
  show EndsIf F Q (Except.ok <$> p) s ↔ _
  rw [← bind_pure_comp, ends_bind]
  exact Iff.rfl

theorem ends_adapt {ε' : Type} {Q : Except ε' α → σ → Prop} {x : ExceptT ε (Prog Op) α} {g : ε → ε'}
    {s : σ} : EndsIf F Q (x.adapt g).run s ↔ EndsIf F (fun r => Q (r.mapError g)) x.run s := by
  show EndsIf F Q (Except.mapError g <$> x.run) s ↔ _
  rw [← bind_pure_comp, ends_bind]
  exact Iff.rfl

/-! ## Programs that only read -/

/-- From `s` the program leaves the state as it is, and what it returns satisfies `P`. -/
def Reads (P : α → Prop) (x : ExceptT ε (Prog Op) α) (s : σ) : Prop :=
  Ends (fun r s' => s' = s ∧ ∀ a, r = .ok a → P a) x.run s

theorem Reads.bind {P : α → Prop} {Q : Except ε β → σ → Prop} {x : ExceptT ε (Prog Op) α}
    {f : α → ExceptT ε (Prog Op) β} {s : σ} (hx : Reads P x s) (hf : ∀ a, P a → EndsIf F Q (f a).run s)
    (he : ∀ e, Q (.error e) s) : EndsIf F Q (x >>= f).run s := by
  refine ends_exceptT_bind.2 (EndsIf.mono (EndsIf.spared hx) fun r s' hr => ?_)
  obtain ⟨rfl, hr⟩ := hr
  cases r with
  | ok a => exact hf a (hr a rfl)
  | error e => exact he e

theorem Reads.seq {P : α → Prop} {R : β → Prop} {x : ExceptT ε (Prog Op) α}
    {f : α → ExceptT ε (Prog Op) β} {s : σ} (hx : Reads P x s) (hf : ∀ a, P a → Reads R (f a) s) :
    Reads R (x >>= f) s :=
  hx.bind hf fun _ => ⟨rfl, nofun⟩

theorem reads_throw {P : α → Prop} {e : ε} {s : σ} : Reads P (throw e : ExceptT ε (Prog Op) α) s := by
  unfold Reads
  exact ends_throw.2 ⟨rfl, nofun⟩

theorem reads_pure {P : α → Prop} {a : α} {s : σ} (h : P a) :
    Reads P (pure a : ExceptT ε (Prog Op) α) s :=
  ⟨rfl, fun _ hb => by cases hb; exact h⟩

/-- The answers of `f` at each element in order, up to the first error. -/
def forEach (f : α → ExceptT ε (Prog Op) β) : List α → ExceptT ε (Prog Op) (List β)
  | [] => pure []
  | a :: l => do
    let b ← f a
    let bs ← forEach f l
    pure (b :: bs)

theorem reads_forEach {f : α → ExceptT ε (Prog Op) β} {g : α → β} {l : List α} {s : σ}
    (hf : ∀ a ∈ l, Reads (· = g a) (f a) s) : Reads (· = l.map g) (forEach f l) s := by
  induction l with
  | nil => exact reads_pure rfl
  | cons a l ih =>
    refine (hf a (List.mem_cons_self ..)).seq fun b hb => ?_
    refine (ih fun x hx => hf x (List.mem_cons_of_mem _ hx)).seq fun bs hbs => ?_
    exact reads_pure (by rw [hb, hbs, List.map_cons])

/-- The answers stand to the elements as each one does. -/
theorem reads_forEach_rel {f : α → ExceptT ε (Prog Op) β} {R : α → β → Prop} {l : List α} {s : σ}
    (hf : ∀ a ∈ l, Reads (R a) (f a) s) : Reads (List.Forall₂ R l) (forEach f l) s := by
  induction l with
  | nil => exact reads_pure .nil
  | cons a l ih =>
    refine (hf a (List.mem_cons_self ..)).seq fun b hb => ?_
    refine (ih fun x hx => hf x (List.mem_cons_of_mem _ hx)).seq fun bs hbs => ?_
    exact reads_pure (.cons hb hbs)

/-- The loop rule: each turn that goes on keeps `I` of the elements gone through, and `E` holds wherever the loop stops.
-/
theorem EndsIf.forEach {f : α → ExceptT ε (Prog Op) β} {I : List α → σ → Prop}
    {E : σ → Prop} {l : List α} {s : σ} (done : List α) (hE : ∀ done s, I done s → E s)
    (hf : ∀ done a s, a ∈ l → I done s →
      EndsIf F (fun r s' => E s' ∧ (r.isOk = true → I (done ++ [a]) s')) (f a).run s) (h : I done s) :
    EndsIf F (fun r s' => E s' ∧ (r.isOk = true → I (done ++ l) s')) (forEach f l).run s := by
  induction l generalizing done s with
  | nil =>
    rw [List.append_nil]
    exact ends_return.2 ⟨hE done s h, fun _ => h⟩
  | cons a l ih =>
    refine ends_exceptT_bind.2 ((hf done a s (.head _) h).mono fun r s' hr => ?_)
    cases r with
    | error e => exact ⟨hr.1, nofun⟩
    | ok b =>
      have hrest := ih (done ++ [a]) (fun done x s hx => hf done x s (.tail _ hx)) (hr.2 rfl)
      rw [List.append_assoc] at hrest
      refine ends_exceptT_bind.2 (hrest.mono fun r s'' hr' => ?_)
      cases r with
      | error e => exact ⟨hr'.1, nofun⟩
      | ok bs => exact ends_return.2 ⟨hr'.1, fun _ => hr'.2 rfl⟩

/-- Without faults, where every answer is there. -/
theorem run_forEach {f : α → ExceptT ε (Prog Op) β} {g : α → β} {l : List α} {s : σ}
    (hf : ∀ a ∈ l, Prog.run (f a).run s = (.ok (g a), s)) : Prog.run (forEach f l).run s = (.ok (l.map g), s) := by
  induction l with
  | nil => rfl
  | cons a l ih =>
    unfold forEach
    rw [run_exceptT_bind, hf a (.head _)]
    dsimp only
    rw [run_exceptT_bind, ih fun x hx => hf x (.tail _ hx)]
    rfl

end Ends

/-! ## The calls a program can make -/

/-- Every call the program can make, whatever the answers so far, satisfies `P`. -/
def Uses (P : ∀ β : Type, Op β → Prop) : Prog Op α → Prop
  | ret _ => True
  | call op k => P _ op ∧ ∀ b, (k b).Uses P

section Uses

variable {P : ∀ β : Type, Op β → Prop}

omit [Calls Op σ]

theorem uses_call {op : Op β} {k : β → Prog Op α} :
    (call op k).Uses P ↔ P _ op ∧ ∀ b, (k b).Uses P := Iff.rfl

theorem uses_pure (a : α) : (pure a : Prog Op α).Uses P := trivial

theorem uses_return (a : α) : Uses P (pure a : ExceptT ε (Prog Op) α).run := trivial

theorem uses_throw (e : ε) : Uses P (throw e : ExceptT ε (Prog Op) α).run := trivial

theorem uses_perform {op : Op β} (h : P _ op) : (perform op).Uses P := ⟨h, fun _ => trivial⟩

theorem uses_bind {p : Prog Op α} {f : α → Prog Op β} (hp : p.Uses P) (hf : ∀ a, (f a).Uses P) :
    (p >>= f).Uses P := by
  induction p with
  | ret a => exact hf a
  | call op k ih => exact ⟨hp.1, fun b => ih b (hp.2 b)⟩

theorem uses_exceptT_bind {x : ExceptT ε (Prog Op) α} {f : α → ExceptT ε (Prog Op) β}
    (hx : Uses P x.run) (hf : ∀ a, Uses P (f a).run) : Uses P (x >>= f).run := by
  rw [ExceptT.run_bind]
  refine uses_bind hx fun r => ?_
  cases r with
  | ok a => exact hf a
  | error e => exact trivial

theorem uses_lift {p : Prog Op α} (hp : p.Uses P) : Uses P (ExceptT.lift p : ExceptT ε (Prog Op) α).run := by
  show Uses P (Except.ok <$> p)
  rw [← bind_pure_comp]
  exact uses_bind hp fun _ => trivial

theorem uses_adapt {ε' : Type} {x : ExceptT ε (Prog Op) α} {g : ε → ε'} (hx : Uses P x.run) :
    Uses P (x.adapt g).run := by
  show Uses P (Except.mapError g <$> x.run)
  rw [← bind_pure_comp]
  exact uses_bind hx fun _ => trivial

theorem uses_forEach {f : α → ExceptT ε (Prog Op) β} {l : List α} (hf : ∀ a ∈ l, Uses P (f a).run) :
    Uses P (forEach f l).run := by
  induction l with
  | nil => exact trivial
  | cons a l ih =>
    have hrest := ih fun x hx => hf x (List.mem_cons_of_mem _ hx)
    exact uses_exceptT_bind (hf a (List.mem_cons_self ..)) fun b => uses_exceptT_bind hrest fun bs => trivial

theorem Uses.mono {P' : ∀ β : Type, Op β → Prop} {p : Prog Op α} (h : p.Uses P)
    (hP : ∀ (β : Type) (op : Op β), P β op → P' β op) : p.Uses P' := by
  induction p with
  | ret a => exact trivial
  | call op k ih => exact ⟨hP _ _ h.1, fun b => ih b (h.2 b)⟩

end Uses

/-- A property kept by every call a program can make holds wherever the program ends. -/
theorem Uses.ends {P : ∀ β : Type, Op β → Prop} {I : σ → Prop}
    (hI : ∀ (β : Type) (op : Op β) (s : σ), P β op → I s → I (Calls.exec op s).2)
    {p : Prog Op α} (hp : p.Uses P) {s : σ} (hs : I s) : p.Ends (fun _ => I) s := by
  induction p generalizing s with
  | ret a => exact hs
  | call op k ih => exact ⟨ih _ (hp.2 _) (hI _ _ _ hp.1 hs), fun _ b _ => ih _ (hp.2 b) hs⟩

/-- A property kept by every call holds wherever a program ends. -/
theorem ends_of_calls {I : σ → Prop}
    (hI : ∀ (β : Type) (op : Op β) (s : σ), I s → I (Calls.exec op s).2)
    (p : Prog Op α) {s : σ} (hs : I s) : p.Ends (fun _ => I) s := by
  induction p generalizing s with
  | ret a => exact hs
  | call op k ih => exact ⟨ih _ (hI _ _ _ hs), fun _ b _ => ih _ hs⟩

/-- What ends in `Q` from every state does so after any program. -/
theorem ends_after {Q : β → σ → Prop} {p : Prog Op α} {f : α → Prog Op β} {s : σ}
    (hf : ∀ a s', (f a).Ends Q s') : (p >>= f).Ends Q s :=
  (ends_of_calls (I := fun _ => True) (fun _ _ _ _ => trivial) p trivial).seq fun a s' _ => hf a s'

-- From here on a program is reasoned about by the rules above, never by evaluating it.
attribute [irreducible] EndsIf Uses

end Prog

end Effect
