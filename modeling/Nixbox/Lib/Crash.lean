/-
Programs that are cut short: the state after some number of their calls, and properties of every
state a program passes through, whichever of its calls fail.
-/
import Nixbox.Lib.Threads

namespace Effect

namespace Prog

universe u

variable {Op : Type → Type u} {α β σ ε : Type} [Calls Op σ]

/-- The state after at most `n` calls of a run, of which those marked `true` fail. -/
def cutAt : Nat → Prog Op α → List Bool → σ → σ
  | 0, _, _, s => s
  | _ + 1, ret _, _, s => s
  | n + 1, call op k, fs, s =>
    match fs.headD false, Calls.fault op with
    | true, some b => (k b).cutAt n fs.tail s
    | _, _ => (k (Calls.exec op s).1).cutAt n fs.tail (Calls.exec op s).2

/-- In every run from `s`, whichever calls fail, each state between two calls satisfies `I` and the
run ends in `Q`. -/
def Throughout (I : σ → Prop) (Q : α → σ → Prop) : Prog Op α → σ → Prop
  | ret a, s => I s ∧ Q a s
  | call op k, s => I s ∧ (k (Calls.exec op s).1).Throughout I Q (Calls.exec op s).2 ∧
      ∀ b, Calls.fault op = some b → (k b).Throughout I Q s

variable {I : σ → Prop} {Q : α → σ → Prop}

theorem Throughout.now {p : Prog Op α} {s : σ} (h : p.Throughout I Q s) : I s := by
  cases p with
  | ret a => exact h.1
  | call op k => exact h.1

theorem Throughout.cutAt {p : Prog Op α} {s : σ} (h : p.Throughout I Q s) (n : Nat) (fs : List Bool) :
    I (p.cutAt n fs s) := by
  induction n generalizing p fs s with
  | zero => exact h.now
  | succ n ih =>
    cases p with
    | ret a => exact h.1
    | call op k =>
      unfold Prog.cutAt
      split
      · rename_i b _ hb
        exact ih (h.2.2 b hb) _
      · exact ih h.2.1 _

theorem Throughout.runWith {p : Prog Op α} {s : σ} (h : p.Throughout I Q s) (fs : List Bool) :
    I (p.runWith fs s).2 ∧ Q (p.runWith fs s).1 (p.runWith fs s).2 := by
  induction p generalizing fs s with
  | ret a => exact h
  | call op k ih =>
    unfold Prog.runWith
    split
    · rename_i b _ hb
      exact ih b (h.2.2 b hb) _
    · exact ih _ h.2.1 _

theorem Throughout.mono {Q' : α → σ → Prop} {p : Prog Op α} {s : σ} (h : p.Throughout I Q s)
    (hQ : ∀ a s', I s' → Q a s' → Q' a s') : p.Throughout I Q' s := by
  induction p generalizing s with
  | ret a => exact ⟨h.1, hQ _ _ h.1 h.2⟩
  | call op k ih => exact ⟨h.1, ih _ h.2.1, fun b hb => ih b (h.2.2 b hb)⟩

/-! ## Rules -/

theorem throughout_pure {a : α} {s : σ} : (pure a : Prog Op α).Throughout I Q s ↔ I s ∧ Q a s := Iff.rfl

theorem throughout_perform {op : Op α} {s : σ} : (perform op).Throughout I Q s ↔
    I s ∧ (I (Calls.exec op s).2 ∧ Q (Calls.exec op s).1 (Calls.exec op s).2) ∧
      ∀ b, Calls.fault op = some b → I s ∧ Q b s := Iff.rfl

theorem Throughout.seq {R : β → σ → Prop} {p : Prog Op α} {f : α → Prog Op β} {s : σ}
    (hp : p.Throughout I Q s) (hf : ∀ a s', I s' → Q a s' → (f a).Throughout I R s') :
    (p >>= f).Throughout I R s := by
  induction p generalizing s with
  | ret a => exact hf a s hp.1 hp.2
  | call op k ih => exact ⟨hp.1, ih _ hp.2.1, fun b hb => ih b (hp.2.2 b hb)⟩

/-! ## Programs that may stop early -/

/-- What holds where the program has not stopped early. -/
def OnOk (P : α → σ → Prop) (r : Except ε α) (s : σ) : Prop := ∀ a, r = .ok a → P a s

theorem Throughout.seqOk {P : α → σ → Prop} {R : β → σ → Prop} {x : ExceptT ε (Prog Op) α}
    {f : α → ExceptT ε (Prog Op) β} {s : σ} (hx : Throughout I (OnOk P) x.run s)
    (hf : ∀ a s', I s' → P a s' → Throughout I (OnOk R) (f a).run s') :
    Throughout I (OnOk R) (x >>= f).run s := by
  rw [ExceptT.run_bind]
  refine hx.seq fun r s' hi hr => ?_
  cases r with
  | ok a => exact hf a s' hi (hr a rfl)
  | error e => exact throughout_pure.2 ⟨hi, nofun⟩

theorem throughout_return {P : α → σ → Prop} {a : α} {s : σ} (hi : I s) (h : P a s) :
    Throughout I (OnOk P) (pure a : ExceptT ε (Prog Op) α).run s :=
  ⟨hi, fun b hb => by cases hb; exact h⟩

theorem throughout_throw {P : α → σ → Prop} {e : ε} {s : σ} (hi : I s) :
    Throughout I (OnOk P) (throw e : ExceptT ε (Prog Op) α).run s :=
  ⟨hi, nofun⟩

theorem throughout_lift {P : α → σ → Prop} {p : Prog Op α} {s : σ} (hp : p.Throughout I P s) :
    Throughout I (OnOk P) (ExceptT.lift p : ExceptT ε (Prog Op) α).run s := by
  show Throughout I (OnOk P) (Except.ok <$> p) s
  rw [← bind_pure_comp]
  exact hp.seq fun a s' hi ha => throughout_pure.2 ⟨hi, fun b hb => by cases hb; exact ha⟩

theorem throughout_adapt {ε' : Type} {P : α → σ → Prop} {x : ExceptT ε (Prog Op) α} {g : ε → ε'} {s : σ}
    (hx : Throughout I (OnOk P) x.run s) : Throughout I (OnOk P) (x.adapt g).run s := by
  show Throughout I (OnOk P) (Except.mapError g <$> x.run) s
  rw [← bind_pure_comp]
  refine hx.seq fun r s' hi hr => throughout_pure.2 ⟨hi, fun b hb => ?_⟩
  cases r with
  | ok a => cases hb; exact hr _ rfl
  | error e => exact nomatch hb

/-! ## From properties of each call, and of the end -/

theorem Throughout.weaken {J : σ → Prop} {p : Prog Op α} {s : σ} (h : p.Throughout I Q s)
    (hI : ∀ s', I s' → J s') : p.Throughout J Q s := by
  induction p generalizing s with
  | ret a => exact ⟨hI _ h.1, h.2⟩
  | call op k ih => exact ⟨hI _ h.1, ih _ h.2.1, fun b hb => ih b (h.2.2 b hb)⟩

/-- A property that every call the program can make keeps. -/
theorem throughout_of_uses {P : ∀ β : Type, Op β → Prop}
    (hI : ∀ (β : Type) (op : Op β) (s : σ), P β op → I s → I (Calls.exec op s).2)
    {p : Prog Op α} (hp : p.Uses P) {s : σ} (hs : I s) : p.Throughout I (fun _ _ => True) s := by
  induction p generalizing s with
  | ret a => exact ⟨hs, trivial⟩
  | call op k ih =>
    have hop := uses_call.1 hp
    exact ⟨hs, ih _ (hop.2 _) (hI _ _ _ hop.1 hs), fun b _ => ih _ (hop.2 b) hs⟩

/-- A property that the calls of a discipline keep, each from where those before it have led. -/
theorem Keeps.throughout {κ : Type} {D : Discipline Op κ} {E : α → κ → Prop} {P : ∀ β : Type, Op β → Prop}
    {J : κ → σ → Prop}
    (hJ : ∀ (β : Type) (op : Op β) (q : κ) (s : σ), P β op → D.allows q op → J q s →
      J (D.next q op (Calls.exec op s).1) (Calls.exec op s).2 ∧
        ∀ b, Calls.fault op = some b → J (D.next q op b) s)
    {p : Prog Op α} {q : κ} {s : σ} (hp : p.Keeps D E q) (hu : p.Uses P) (hs : J q s) :
    p.Throughout (fun s' => ∃ q', J q' s') (fun _ _ => True) s := by
  induction p generalizing q s with
  | ret a => exact ⟨⟨q, hs⟩, trivial⟩
  | call op k ih =>
    obtain ⟨hallow, hrest⟩ := keeps_call.1 hp
    obtain ⟨hop, hk⟩ := uses_call.1 hu
    obtain ⟨hmade, hfailed⟩ := hJ _ op q s hop hallow hs
    refine ⟨⟨q, hs⟩, ih _ (hrest _ (.inl ⟨s, rfl⟩)) (hk _) hmade, fun b hb => ?_⟩
    exact ih b (hrest b (.inr hb)) (hk b) (hfailed b hb)

/-- What holds at the end of every run is added to the postcondition. -/
theorem Throughout.and_ends {Q' : α → σ → Prop} {p : Prog Op α} {s : σ}
    (h : p.Throughout I Q s) (h' : p.Ends Q' s) :
    p.Throughout I (fun a s' => Q a s' ∧ Q' a s') s := by
  induction p generalizing s with
  | ret a => exact ⟨h.1, h.2, ends_pure.1 h'⟩
  | call op k ih =>
    have hstep := endsIf_step.1 h'
    exact ⟨h.1, ih _ h.2.1 hstep.1, fun b hb => ih b (h.2.2 b hb) (hstep.2 rfl b hb)⟩

attribute [irreducible] Throughout

end Prog

end Effect
