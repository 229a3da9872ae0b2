/-
Runs of a system that stamps with the clock: when it was last edited, and when it was last marked.
With readings that only grow, the later stamp is the mark exactly if nothing was edited since.
-/
import Nixbox.Lib.Runs
import Mathlib.Data.List.Induction
import Mathlib.Order.Lattice

namespace Runs

universe u v w

/-- The time of the last edit and of the last mark. -/
structure Stamp (τ : Type w) where
  edited : τ
  marked : Option τ
  deriving DecidableEq, Repr

namespace Stamp

variable {τ : Type w}

/-- An edit moves the stamp of the row. -/
def edit (s : Stamp τ) (t : τ) : Stamp τ := ⟨t, s.marked⟩

/-- A mark sets the other one. -/
def mark (s : Stamp τ) (t : τ) : Stamp τ := ⟨s.edited, some t⟩

variable [LinearOrder τ] {s : Stamp τ} {t : τ}

/-- Marked, and the mark is not earlier than the last edit. -/
def Fresh (s : Stamp τ) : Prop := ∃ m, s.marked = some m ∧ s.edited ≤ m

/-- Both stamps are earlier than `t`. -/
def Before (s : Stamp τ) (t : τ) : Prop := s.edited < t ∧ ∀ m, s.marked = some m → m < t

theorem Before.mark_fresh (h : s.Before t) : (s.mark t).Fresh := ⟨t, rfl, le_of_lt h.1⟩

theorem Before.edit_not_fresh (h : s.Before t) : ¬ (s.edit t).Fresh := by
  rintro ⟨m, hm, hle⟩
  exact absurd (h.2 m hm) (not_lt.2 hle)

theorem Before.mono {t' : τ} (h : s.Before t) (hle : t ≤ t') : s.Before t' :=
  ⟨lt_of_lt_of_le h.1 hle, fun m hm => lt_of_lt_of_le (h.2 m hm) hle⟩

end Stamp

variable {σ : Type u} {ε : Type v} {τ : Type w} {step : σ → ε → Option σ} {s s' : σ} {e : ε} {es : List ε}

/-- Every step marks, keeps or edits the stamp that `stamp` reads off a state of `I`. -/
structure Stamping (step : σ → ε → Option σ) (time : ε → τ) (stamp : σ → Stamp τ) (I : σ → Prop)
    (Marks Keeps : σ → ε → Prop) : Prop where
  inv : ∀ {s e s'}, I s → step s e = some s' → I s'
  marks : ∀ {s e s'}, I s → step s e = some s' → Marks s e → stamp s' = (stamp s).mark (time e)
  keeps : ∀ {s e s'}, I s → step s e = some s' → ¬ Marks s e → Keeps s e → stamp s' = stamp s
  edits : ∀ {s e s'}, I s → step s e = some s' → ¬ Marks s e → ¬ Keeps s e →
    stamp s' = (stamp s).edit (time e)

variable [LinearOrder τ] {time : ε → τ} {stamp : σ → Stamp τ} {I : σ →
  Prop} {Marks Keeps : σ → ε → Prop}

/-- One step keeps the stamps behind the clock. -/
theorem Stamping.step_before (hst : Stamping step time stamp I Marks Keeps) (hI : I s) (h : step s e = some s')
    (hb : (stamp s).Before (time e)) {t : τ} (ht : time e < t) : (stamp s').Before t := by
  by_cases hm : Marks s e
  · rw [hst.marks hI h hm]
    exact ⟨hb.1.trans ht, fun m hmk => by cases hmk; exact ht⟩
  · by_cases hk : Keeps s e
    · rw [hst.keeps hI h hm hk]
      exact hb.mono (le_of_lt ht)
    · rw [hst.edits hI h hm hk]
      exact ⟨ht, fun m hmk => (hb.2 m hmk).trans ht⟩

/-- Along a run with growing readings: fresh exactly if a step marked and every later one kept. -/
theorem Stamping.fresh_iff (hst : Stamping step time stamp I Marks Keeps) {t₀ : τ} (hI : I s)
    (hstart : ∀ t, t₀ < t → (stamp s).Before t) (hunmarked : ¬ (stamp s).Fresh)
    (hclock : (t₀ :: es.map time).Pairwise (· < ·)) (h : exec step s es = some s') :
    I s' ∧ (∀ t, (∀ x ∈ t₀ :: es.map time, x < t) → (stamp s').Before t) ∧
      ((stamp s').Fresh ↔ Since step Marks Keeps s es) := by
  induction es using List.reverseRecOn generalizing s' with
  | nil =>
    cases h
    exact ⟨hI, fun t ht => hstart t (ht t₀ (.head _)), iff_of_false hunmarked not_since_nil⟩
  | append_singleton es e ih =>
    obtain ⟨u, hu, he⟩ := exec_snoc_some h
    rw [List.map_append, ← List.cons_append, List.pairwise_append] at hclock
    obtain ⟨hclock, -, hlast⟩ := hclock
    obtain ⟨hIu, hbefore, hiff⟩ := ih hclock hu
    -- everything so far is stamped before the reading of the last step
    have hb : (stamp u).Before (time e) := hbefore _ fun x hx => hlast x hx _ (.head _)
    refine ⟨hst.inv hIu he, fun t ht => hst.step_before hIu he hb (ht _ ?_), ?_⟩
    · exact List.mem_cons_of_mem _ (by simp)
    rw [since_snoc hu he, ← hiff]
    by_cases hm : Marks u e
    · rw [hst.marks hIu he hm]
      exact iff_of_true hb.mark_fresh (.inl hm)
    · by_cases hk : Keeps u e
      · rw [hst.keeps hIu he hm hk]
        exact ⟨fun hf => .inr ⟨hf, hk⟩, fun hor => (hor.resolve_left hm).1⟩
      · rw [hst.edits hIu he hm hk]
        exact iff_of_false hb.edit_not_fresh (not_or.2 ⟨hm, fun hf => hk hf.2⟩)

end Runs
