/-
Two programs that make the same calls up to a relation: what one call hands over may differ from what
the other does, while what comes back is the same. Run on states a call of each keeps alike, by themselves
or among others, they come to the same.
-/
import Mathlib.Data.List.Forall2
import Nixbox.Lib.Threads

namespace Runs

universe u v

theorem rel_bind {α α' β β' : Type*} {R : α → α' → Prop} {S : β → β' → Prop}
    {o : Option α} {o' : Option α'} {f : α → Option β} {f' : α' → Option β'} (h : Option.Rel R o o')
    (hf : ∀ a a', R a a' → Option.Rel S (f a) (f' a')) :
    Option.Rel S (o.bind f) (o'.bind f') := by
  cases h with
  | none => exact .none
  | some ha => exact hf _ _ ha

theorem forall₂_set {α β : Type*} {R : α → β → Prop} {l : List α} {l' : List β} {a : α} {b : β}
    (h : List.Forall₂ R l l') (hab : R a b) (k : Nat) : List.Forall₂ R (l.set k a) (l'.set k b) := by
  induction h generalizing k with
  | nil => exact .nil
  | cons hhead htail ih =>
    cases k with
    | zero => exact .cons hab htail
    | succ k => exact .cons hhead (ih k)

/-- Systems that stay alike in every step stay alike in every run. -/
theorem exec_rel {σ : Type u} {ε : Type v} {step step' : σ → ε → Option σ}
    {S : σ → σ → Prop} {E : ε → ε → Prop}
    (hstep : ∀ s s' e e', S s s' → E e e' → Option.Rel S (step s e) (step' s' e')) {s s' : σ} {es es' : List ε}
    (hs : S s s') (hes : List.Forall₂ E es es') : Option.Rel S (exec step s es) (exec step' s' es') := by
  induction hes generalizing s s' with
  | nil => exact .some hs
  | cons he _ ih =>
    rw [exec_cons, exec_cons]
    exact rel_bind (hstep _ _ _ _ hs he) fun _ _ ht => ih ht

end Runs

namespace Effect

universe u

namespace Prog

variable {Op : Type → Type u} {α α' β γ γ' σ ε : Type}

/-- The results of two programs that stop alike: both with the same error, or with related values. -/
def ExceptRel (Q : α → α' → Prop) : Except ε α → Except ε α' → Prop
  | .error e, .error e' => e = e'
  | .ok a, .ok a' => Q a a'
  | _, _ => False

/-- The programs make related calls, go on alike whatever the answer, and return what `Q` relates. -/
inductive Mirrors (R : ∀ β : Type, Op β → Op β → Prop) (Q : α → α' → Prop) :
    Prog Op α → Prog Op α' → Prop
  | ret {a : α} {a' : α'} (h : Q a a') : Mirrors R Q (.ret a) (.ret a')
  | call {β : Type} {op op' : Op β} {k : β → Prog Op α} {k' : β → Prog Op α'} (hop : R β op op')
    (hk : ∀ b, Mirrors R Q (k b) (k' b)) : Mirrors R Q (.call op k) (.call op' k')

section Rules

variable {R : ∀ β : Type, Op β → Op β → Prop} {Q : α → α' → Prop} {S : γ → γ' → Prop}

theorem Mirrors.refl (hR : ∀ β op, R β op op) (p : Prog Op α) : p.Mirrors R Eq p := by
  induction p with
  | ret a => exact .ret rfl
  | call op k ih => exact .call (hR _ op) ih

theorem mirrors_perform {op op' : Op β} (h : R β op op') : (perform op).Mirrors R Eq (perform op') :=
  .call h fun _ => .ret rfl

theorem Mirrors.bind {p : Prog Op α} {p' : Prog Op α'} {f : α → Prog Op γ} {f' : α' → Prog Op γ'}
    (h : p.Mirrors R Q p') (hf : ∀ a a', Q a a' → (f a).Mirrors R S (f' a')) :
    (p >>= f).Mirrors R S (p' >>= f') := by
  induction h with
  | ret h => exact hf _ _ h
  | call hop _ ih => exact .call hop ih

theorem Mirrors.mono {Q' : α → α' → Prop} {p : Prog Op α} {p' : Prog Op α'} (h : p.Mirrors R Q p')
    (hQ : ∀ a a', Q a a' → Q' a a') : p.Mirrors R Q' p' := by
  induction h with
  | ret h => exact .ret (hQ _ _ h)
  | call hop _ ih => exact .call hop ih

/-- Programs that may stop early. -/
abbrev MirrorsE (R : ∀ β : Type, Op β → Op β → Prop) (Q : α → α' → Prop) (x : ExceptT ε (Prog Op) α)
    (x' : ExceptT ε (Prog Op) α') : Prop := Mirrors R (ExceptRel Q) x.run x'.run

theorem MirrorsE.refl (hR : ∀ β op, R β op op) (x : ExceptT ε (Prog Op) α) : MirrorsE R Eq x x :=
  (Mirrors.refl hR x.run).mono fun r _ h => by
    cases h
    cases r <;> rfl

theorem mirrorsE_throw (e : ε) :
    MirrorsE R Q (throw e : ExceptT ε (Prog Op) α) (throw e : ExceptT ε (Prog Op) α') := .ret rfl

theorem mirrorsE_return {a : α} {a' : α'} (h : Q a a') :
    MirrorsE R Q (pure a : ExceptT ε (Prog Op) α) (pure a' : ExceptT ε (Prog Op) α') := .ret h

theorem MirrorsE.bind {x : ExceptT ε (Prog Op) α} {x' : ExceptT ε (Prog Op) α'} {f : α → ExceptT ε (Prog Op) γ}
    {f' : α' → ExceptT ε (Prog Op) γ'} (h : MirrorsE R Q x x')
    (hf : ∀ a a', Q a a' → MirrorsE R S (f a) (f' a')) :
    MirrorsE R S (x >>= f) (x' >>= f') := by
  unfold MirrorsE
  rw [ExceptT.run_bind, ExceptT.run_bind]
  refine Mirrors.bind h fun r r' hr => ?_
  match r, r', hr with
  | .error e, .error e', hr => exact .ret hr
  | .ok a, .ok a', hr => exact hf a a' hr

theorem mirrorsE_lift {p : Prog Op α} {p' : Prog Op α'} (h : p.Mirrors R Q p') :
    MirrorsE R Q (ExceptT.lift p : ExceptT ε (Prog Op) α) (ExceptT.lift p' : ExceptT ε (Prog Op) α') := by
  show Mirrors R _ (Except.ok <$> p) (Except.ok <$> p')
  rw [← bind_pure_comp, ← bind_pure_comp]
  exact h.bind fun a a' ha => .ret ha

end Rules

/-! ## Runs -/

section Runs

variable [Calls Op σ] {R : ∀ β : Type, Op β → Op β → Prop} {T : σ → σ → Prop} {Q : α → α' → Prop}

/-- Related calls find out and do the same on states that are alike. -/
structure Masks (R : ∀ β : Type, Op β → Op β → Prop) (T : σ → σ → Prop) : Prop where
  exec : ∀ {β : Type} {op op' : Op β} {s s' : σ}, R β op op' → T s s' →
    (Calls.exec op s).1 = (Calls.exec op' s').1 ∧ T (Calls.exec op s).2 (Calls.exec op' s').2
  fault : ∀ {β : Type} {op op' : Op β}, R β op op' → Calls.fault op = Calls.fault op'

/-- The next calls of programs that mirror each other. -/
theorem Mirrors.advance {p : Prog Op α} {p' : Prog Op α'} {s s' : σ} (h : p.Mirrors R Q p') (hT : Masks R T)
    (hs : T s s') (fails : Bool) : Option.Rel (fun x x' => x.2.1.Mirrors R Q x'.2.1 ∧ T x.2.2 x'.2.2)
      (p.advance fails s) (p'.advance fails s') := by
  cases h with
  | ret => exact .none
  | @call β op op' k k' hop hk =>
    unfold Prog.advance
    dsimp only
    rw [hT.fault hop]
    split
    · exact .some ⟨hk _, hs⟩
    · obtain ⟨hanswer, hs⟩ := hT.exec hop hs
      rw [hanswer]
      exact .some ⟨hk _, hs⟩

theorem Mirrors.runWith {p : Prog Op α} {p' : Prog Op α'} {s s' : σ} (h : p.Mirrors R Q p') (hT : Masks R T)
    (hs : T s s') (fs : List Bool) :
    Q (p.runWith fs s).1 (p'.runWith fs s').1 ∧ T (p.runWith fs s).2 (p'.runWith fs s').2 := by
  induction h generalizing s s' fs with
  | ret h => exact ⟨h, hs⟩
  | call hop _ ih =>
    rw [runWith_call, runWith_call, hT.fault hop]
    split
    · exact ih _ hs _
    · obtain ⟨hanswer, hs⟩ := hT.exec hop hs
      rw [hanswer]
      exact ih _ hs _

end Runs

end Prog

namespace Pool

variable {Op : Type → Type u} {α σ ι η : Type} [Calls Op σ]

/-- Pools on states that are alike, of threads that mirror each other and were started for related ends. -/
structure Mirrors (R : ∀ β : Type, Op β → Op β → Prop) (T : σ → σ → Prop) (I : ι → ι → Prop)
    (p p' : Pool Op σ ι α) : Prop where
  state : T p.state p'.state
  threads : List.Forall₂ (fun t t' => I t.tag t'.tag ∧ Prog.Mirrors R Eq t.prog t'.prog) p.threads p'.threads

/-- Two moves of the same kind: requests that mirror each other, the same call, or the same step outside. -/
inductive MirrorsMove (I : ι → ι → Prop) : Move ι η → Move ι η → Prop
  | start {i i' : ι} (h : I i i') : MirrorsMove I (.start i) (.start i')
  | call (k : Nat) (fails : Bool) : MirrorsMove I (.call k fails) (.call k fails)
  | env (e : η) : MirrorsMove I (.env e) (.env e)

variable {R : ∀ β : Type, Op β → Op β → Prop} {T : σ → σ → Prop} {I : ι → ι →
  Prop} {body : ι → Prog Op α}
  {env : η → σ → Option σ} {p p' : Pool Op σ ι α}

theorem Mirrors.step (hT : Prog.Masks R T) (hbody : ∀ i i', I i i' → (body i).Mirrors R Eq (body i'))
    (henv : ∀ e s s', T s s' → Option.Rel T (env e s) (env e s')) {m m' : Move ι η} (h : Mirrors R T I p p')
    (hm : MirrorsMove I m m') : Option.Rel (Mirrors R T I) (step body env p m) (step body env p' m') := by
  cases hm with
  | start hi => exact .some ⟨h.state, List.rel_append h.threads (.cons ⟨hi, hbody _ _ hi⟩ .nil)⟩
  | call k fails =>
    show Option.Rel _ (p.threads[k]?.bind _) (p'.threads[k]?.bind _)
    rcases Nat.lt_or_ge k p.threads.length with hlt | hge
    · have hlt' : k < p'.threads.length := h.threads.length_eq ▸ hlt
      rw [List.getElem?_eq_getElem hlt, List.getElem?_eq_getElem hlt']
      obtain ⟨htag, hprog⟩ := h.threads.get hlt hlt'
      have hadv := hprog.advance hT h.state fails
      show Option.Rel _ ((Prog.advance fails (p.threads.get ⟨k, hlt⟩).prog p.state).bind _)
        ((Prog.advance fails (p'.threads.get ⟨k, hlt'⟩).prog p'.state).bind _)
      refine Runs.rel_bind hadv fun x x' hnext => ?_
      exact .some ⟨hnext.2, Runs.forall₂_set (a := ⟨_, x.2.1⟩) (b := ⟨_, x'.2.1⟩) h.threads
        ⟨htag, hnext.1⟩ k⟩
    · rw [List.getElem?_eq_none hge, List.getElem?_eq_none (h.threads.length_eq ▸ hge)]
      exact .none
  | env e =>
    show Option.Rel _ ((env e p.state).map _) ((env e p'.state).map _)
    rw [Option.map_eq_bind, Option.map_eq_bind]
    exact Runs.rel_bind (henv e _ _ h.state) fun _ _ hs => .some ⟨hs, h.threads⟩

/-- Pools that mirror each other go on to, move by move. -/
theorem Mirrors.run (hT : Prog.Masks R T) (hbody : ∀ i i', I i i' → (body i).Mirrors R Eq (body i'))
    (henv : ∀ e s s', T s s' → Option.Rel T (env e s) (env e s')) {ms ms' : List (Move ι η)}
    (h : Mirrors R T I p p') (hms : List.Forall₂ (MirrorsMove I) ms ms') :
    Option.Rel (Mirrors R T I) (run body env p ms) (run body env p' ms') :=
  Runs.exec_rel (fun _ _ _ _ hp hm => hp.step hT hbody henv hm) h hms

end Pool

end Effect
