/-
Runs of a system that takes steps on events: the state a list of events leads to, properties of
each step of a run, and the rule that carries an invariant along it.
-/
import Mathlib.Tactic.Common

namespace Runs

universe u v

variable {σ : Type u} {ε : Type v} (step : σ → ε → Option σ)

/-- The state after the events in order; `none` if one of them is not possible where it comes. -/
def exec : σ → List ε → Option σ
  | s, [] => some s
  | s, e :: es => (step s e).bind fun s' => exec s' es

/-- Every step of the run from `s` on the events satisfies `P`, a property of the event and the
state it meets. -/
def Along (P : σ → ε → Prop) : σ → List ε → Prop
  | _, [] => True
  | s, e :: es => P s e ∧ ∀ s', step s e = some s' → Along P s' es

/-- Whether every step of a run meets a condition can be found by running it. -/
def decidableAlong (P : σ → ε → Prop) [∀ s e, Decidable (P s e)] :
    ∀ (s : σ) (es : List ε), Decidable (Along step P s es)
  | _, [] => isTrue trivial
  | s, e :: es =>
    match h : step s e with
    | none => decidable_of_iff (P s e) ⟨fun hp => ⟨hp, fun t ht => by rw [h] at ht; cases ht⟩, And.left⟩
    | some s' =>
      have := decidableAlong P s' es
      decidable_of_iff (P s e ∧ Along step P s' es)
        ⟨fun ⟨hp, ha⟩ => ⟨hp, fun t ht => by rw [h] at ht; cases ht; exact ha⟩,
          fun ⟨hp, ha⟩ => ⟨hp, ha s' h⟩⟩

instance (P : σ → ε → Prop) [∀ s e, Decidable (P s e)] (s : σ) (es : List ε) :
    Decidable (Along step P s es) := decidableAlong step P s es

variable {step} {s s' : σ} {e : ε} {es pre post : List ε} {P Q : σ → ε → Prop} {I : σ → Prop}

@[simp] theorem exec_nil : exec step s [] = some s := rfl

theorem exec_cons : exec step s (e :: es) = (step s e).bind fun t => exec step t es := rfl

theorem exec_cons_some : exec step s (e :: es) = some s' ↔
    ∃ t, step s e = some t ∧ exec step t es = some s' := by
  rw [exec_cons, Option.bind_eq_some_iff]

theorem exec_append_some : exec step s (pre ++ post) = some s' ↔
    ∃ t, exec step s pre = some t ∧ exec step t post = some s' := by
  induction pre generalizing s with
  | nil => simp
  | cons e pre ih =>
    rw [List.cons_append, exec_cons_some]
    simp only [ih, exec_cons_some]
    constructor
    · rintro ⟨u, hu, t, ht, h⟩; exact ⟨t, ⟨u, hu, ht⟩, h⟩
    · rintro ⟨t, ⟨u, hu, ht⟩, h⟩; exact ⟨u, hu, t, ht, h⟩

theorem exec_snoc (h : exec step s es = some s') (e : ε) :
    exec step s (es ++ [e]) = step s' e := by
  induction es generalizing s with
  | nil => cases h; simp [exec_cons]
  | cons a es ih =>
    obtain ⟨t, ht, h⟩ := exec_cons_some.1 h
    rw [List.cons_append, exec_cons, ht]
    exact ih h

theorem exec_snoc_some (h : exec step s (es ++ [e]) = some s') :
    ∃ t, exec step s es = some t ∧ step t e = some s' := by
  obtain ⟨t, ht, h⟩ := exec_append_some.1 h
  obtain ⟨u, hu, h⟩ := exec_cons_some.1 h
  cases h
  exact ⟨t, ht, hu⟩

/-- Where every event is possible, so is every run. -/
theorem exec_total (h : ∀ s e, (step s e).isSome) (s : σ) (es : List ε) : ∃ s', exec step s es = some s' := by
  induction es generalizing s with
  | nil => exact ⟨s, rfl⟩
  | cons e es ih =>
    obtain ⟨t, ht⟩ := Option.isSome_iff_exists.1 (h s e)
    obtain ⟨s', hs'⟩ := ih t
    exact ⟨s', exec_cons_some.2 ⟨t, ht, hs'⟩⟩

/-! ## Properties of the steps of a run -/

theorem Along.mono (h : Along step P s es) (hPQ : ∀ s e, P s e → Q s e) : Along step Q s es := by
  induction es generalizing s with
  | nil => exact trivial
  | cons e es ih => exact ⟨hPQ _ _ h.1, fun t ht => ih (h.2 t ht)⟩

theorem Along.and (hP : Along step P s es) (hQ : Along step Q s es) :
    Along step (fun s e => P s e ∧ Q s e) s es := by
  induction es generalizing s with
  | nil => exact trivial
  | cons e es ih => exact ⟨⟨hP.1, hQ.1⟩, fun t ht => ih (hP.2 t ht) (hQ.2 t ht)⟩

theorem Along.at (h : Along step P s (pre ++ e :: post)) (hs : exec step s pre = some s') : P s' e := by
  induction pre generalizing s with
  | nil => cases hs; exact h.1
  | cons a pre ih =>
    obtain ⟨t, ht, hs⟩ := exec_cons_some.1 hs
    exact ih (h.2 t ht) hs

theorem Along.prefix (h : Along step P s (pre ++ post)) : Along step P s pre := by
  induction pre generalizing s with
  | nil => exact trivial
  | cons a pre ih => exact ⟨h.1, fun t ht => ih (h.2 t ht)⟩

theorem Along.suffix (h : Along step P s (pre ++ post)) (hs : exec step s pre = some s') :
    Along step P s' post := by
  induction pre generalizing s with
  | nil => cases hs; exact h
  | cons a pre ih =>
    obtain ⟨t, ht, hs⟩ := exec_cons_some.1 hs
    exact ih (h.2 t ht) hs

theorem Along.append (h : Along step P s pre) (h' : ∀ t, exec step s pre = some t → Along step P t post) :
    Along step P s (pre ++ post) := by
  induction pre generalizing s with
  | nil => exact h' s rfl
  | cons a pre ih =>
    exact ⟨h.1, fun t ht => ih (h.2 t ht) fun u hu => h' u (exec_cons_some.2 ⟨t, ht, hu⟩)⟩

theorem along_iff : Along step P s es ↔
    ∀ pre e post s', es = pre ++ e :: post → exec step s pre = some s' → P s' e := by
  constructor
  · rintro h pre e post s' rfl hs
    exact h.at hs
  · intro h
    induction es generalizing s with
    | nil => exact trivial
    | cons a es ih =>
      refine ⟨h [] a es s rfl rfl, fun t ht => ih fun pre e post s' he hs => ?_⟩
      exact h (a :: pre) e post s' (by rw [he]; rfl) (exec_cons_some.2 ⟨t, ht, hs⟩)

/-! ## Since a step -/

/-- Some step of the run from `s` satisfies `P`, and every later one `Q`. -/
def Since (step : σ → ε → Option σ) (P Q : σ → ε → Prop) (s : σ) (es : List ε) : Prop :=
  ∃ pre e post u v, es = pre ++ e :: post ∧ exec step s pre = some u ∧ step u e = some v ∧
    P u e ∧ Along step Q v post

theorem not_since_nil : ¬ Since step P Q s [] := by
  rintro ⟨pre, e, post, u, v, hes, -⟩
  simp at hes

/-- One more step satisfies `P`, or keeps what holds since an earlier one. -/
theorem since_snoc {t : σ} (h : exec step s es = some t) (hs : step t e = some s') :
    Since step P Q s (es ++ [e]) ↔ P t e ∨ (Since step P Q s es ∧ Q t e) := by
  constructor
  · rintro ⟨pre, a, post, u, v, hes, hpre, ha, hP, hQ⟩
    -- the step is the last one, or the last one is among those after it
    rcases List.eq_nil_or_concat post with rfl | ⟨post, b, rfl⟩
    · obtain ⟨rfl, hea⟩ := List.append_inj' hes rfl
      cases hea
      rw [hpre] at h
      cases h
      exact .inl hP
    · rw [List.concat_eq_append, ← List.cons_append, ← List.append_assoc] at hes
      obtain ⟨rfl, heb⟩ := List.append_inj' hes rfl
      cases heb
      have hpost : exec step v post = some t := by
        obtain ⟨w, hw, hrest⟩ := exec_append_some.1 h
        rw [hpre] at hw
        cases hw
        obtain ⟨w, hw, hrest⟩ := exec_cons_some.1 hrest
        rw [ha] at hw
        cases hw
        exact hrest
      rw [List.concat_eq_append] at hQ
      exact .inr ⟨⟨pre, a, post, u, v, rfl, hpre, ha, hP, hQ.prefix⟩, hQ.at hpost⟩
  · rintro (hP | ⟨⟨pre, a, post, u, v, rfl, hpre, ha, hP, hQ⟩, hlast⟩)
    · exact ⟨es, e, [], t, s', rfl, h, hs, hP, trivial⟩
    · refine ⟨pre, a, post ++ [e], u, v, by simp, hpre, ha, hP, hQ.append fun w hw => ⟨?_, fun _ _ => trivial⟩⟩
      have hreach : exec step s (pre ++ a :: post) = some w :=
        exec_append_some.2 ⟨u, hpre, exec_cons_some.2 ⟨v, ha, hw⟩⟩
      rw [h] at hreach
      cases hreach
      exact hlast

/-- A step that does not keep it leaves only what the later steps give. -/
theorem Since.after {u : σ} (h : Since step P Q s (pre ++ e :: post)) (hu : exec step s pre = some u) (hQ : ¬ Q u e) :
    Since step P Q u (e :: post) := by
  obtain ⟨pre', a, post', v, w, hes, hpre', ha, hP, hpost⟩ := h
  rcases List.append_eq_append_iff.1 hes with ⟨l, rfl, hl⟩ | ⟨l, rfl, hl⟩
  · -- the step since which it holds comes later
    obtain ⟨u', hu', hrest⟩ := exec_append_some.1 hpre'
    rw [hu] at hu'
    cases hu'
    exact ⟨l, a, post', v, w, hl, hrest, ha, hP, hpost⟩
  · obtain ⟨u', hu', hrest⟩ := exec_append_some.1 hu
    rw [hpre'] at hu'
    cases hu'
    cases l with
    | nil =>
      cases hrest
      exact ⟨[], a, post', _, w, by simpa using hl.symm, rfl, ha, hP, hpost⟩
    | cons b l =>
      -- it comes earlier, so `e` is among the steps that keep it
      obtain ⟨rfl, rfl⟩ := List.cons_eq_cons.1 hl
      obtain ⟨w', hw', hrest⟩ := exec_cons_some.1 hrest
      rw [ha] at hw'
      cases hw'
      exact absurd (hpost.at hrest) hQ

theorem Since.mono {P' Q' : σ → ε → Prop} (h : Since step P Q s es)
    (hPQ : Along step (fun u e => (P u e → P' u e) ∧ (Q u e → Q' u e)) s es) : Since step P' Q' s es := by
  obtain ⟨pre, e, post, u, v, rfl, hpre, he, hP, hQ⟩ := h
  have hpost := (hPQ.suffix hpre).2 v he
  exact ⟨pre, e, post, u, v, rfl, hpre, he, (hPQ.at hpre).1 hP, (hpost.and hQ).mono fun _ _ hq => hq.1.2 hq.2⟩

/-! ## Invariants -/

/-- An invariant kept by every step whose event meets `P` holds after a run of such steps. -/
theorem exec_inv (hI : ∀ s e s', P s e → I s → step s e = some s' → I s')
    (hP : Along step P s es) (hs : I s) (h : exec step s es = some s') : I s' := by
  induction es generalizing s with
  | nil => cases h; exact hs
  | cons e es ih =>
    obtain ⟨t, ht, h⟩ := exec_cons_some.1 h
    exact ih (hP.2 t ht) (hI _ _ _ hP.1 hs ht) h

/-- What an invariant implies of each step holds along a run of steps that keep it. -/
theorem along_of_inv (hI : ∀ s e s', P s e → I s → step s e = some s' → I s')
    (hQ : ∀ s e, P s e → I s → Q s e) (hP : Along step P s es) (hs : I s) : Along step Q s es := by
  induction es generalizing s with
  | nil => exact trivial
  | cons e es ih =>
    exact ⟨hQ _ _ hP.1 hs, fun t ht => ih (hP.2 t ht) (hI _ _ _ hP.1 hs ht)⟩

theorem along_true : Along step (fun _ _ => True) s es := by
  induction es generalizing s with
  | nil => exact trivial
  | cons e es ih => exact ⟨trivial, fun _ _ => ih⟩

/-- An invariant kept by every step holds after every run. -/
theorem exec_inv_all (hI : ∀ s e s', I s → step s e = some s' → I s') (hs : I s)
    (h : exec step s es = some s') : I s' :=
  exec_inv (P := fun _ _ => True) (fun s e s' _ => hI s e s') along_true hs h

end Runs
