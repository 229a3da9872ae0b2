/-
The limiter of failed logins over its whole history: what it keeps, pruned at every query, answers
as counting the failures since the last success would.
-/
import Mathlib.Data.List.Induction
import Nixbox.Auth.State

namespace Nixbox.Auth

open Directory

/-! ## Histories -/

/-- A call, with the readings it takes of the clock: `fail` takes one to prune and one to record. -/
inductive LimiterCall
  | blocked (ip : String) (now : Time)
  | fail (ip : String) (now recorded : Time)
  | clear (ip : String)
  deriving DecidableEq, Repr

namespace LimiterCall

/-- The client the call is about. -/
def ip : LimiterCall → String
  | blocked ip _ | fail ip _ _ | clear ip => ip

/-- The readings of the clock that the call takes. -/
def readings : LimiterCall → List Time
  | blocked _ now => [now]
  | fail _ now recorded => [now, recorded]
  | clear _ => []

/-- The call clears the client. -/
def clears (ip : String) : LimiterCall → Bool
  | clear i => i == ip
  | _ => false

/-- The time of a failure of the client. -/
def failedAt (ip : String) : LimiterCall → Option Time
  | fail i _ recorded => if i = ip then some recorded else none
  | _ => none

end LimiterCall

namespace Limiter

/-- `fail` with its two readings. -/
def failRead (l : Limiter) (ip : String) (now recorded : Time) : Limiter :=
  let (kept, l) := l.prune ip now
  { l with fails := l.fails.put ip (kept ++ [recorded]) }

/-- The limiter after a call. -/
def call (l : Limiter) : LimiterCall → Limiter
  | .blocked ip now => (l.blocked ip now).2
  | .fail ip now recorded => l.failRead ip now recorded
  | .clear ip => l.clear ip

/-- A new limiter after the calls. -/
def after (max : Nat) (window : Time) (calls : List LimiterCall) : Limiter :=
  calls.foldl call (newLoginLimiter max window)

end Limiter

/-- The times of the failures of the client after the last call that cleared it. -/
def failedSince (ip : String) (calls : List LimiterCall) : List Time :=
  (calls.reverse.takeWhile fun c => !c.clears ip).reverse.filterMap (·.failedAt ip)

/-- The failures in the window that ends at `t`. -/
def recent (t window : Time) (times : List Time) : List Time := times.filter fun f => t - window < f

/-- The clock does not go back. -/
def Forward (calls : List LimiterCall) : Prop := (calls.flatMap (·.readings)).Pairwise (· ≤ ·)

/-! ## What is kept -/

section Kept

variable {l : Limiter} {ip ip' : String} {t t' window : Time} {max : Nat} {calls : List LimiterCall} {c : LimiterCall}
  {times : List Time}

theorem failedSince_snoc : failedSince ip (calls ++ [c]) =
    if c.clears ip then [] else failedSince ip calls ++ (c.failedAt ip).toList := by
  unfold failedSince
  rw [List.reverse_append, List.reverse_singleton, List.singleton_append, List.takeWhile_cons]
  cases c.clears ip with
  | true => rfl
  | false =>
    simp only [Bool.not_false, if_true, List.reverse_cons, List.filterMap_append]
    cases hc : c.failedAt ip <;> simp [hc]

@[simp] theorem Limiter.failRead_self (l : Limiter) (ip : String) (t : Time) : l.failRead ip t t = l.fail ip t := rfl

theorem Limiter.failures_failRead_self : (l.failRead ip t t').failures ip = (l.prune ip t).1 ++ [t'] := by
  show (((l.prune ip t).2.fails.put ip ((l.prune ip t).1 ++ [t'])).get? ip).getD [] = _
  rw [Dir.get?_put_self]
  rfl

theorem Limiter.failures_failRead_of_ne (h : ip' ≠ ip) : (l.failRead ip t t').failures ip' = l.failures ip' := by
  have hprune : (l.prune ip t).2.failures ip' = l.failures ip' := failures_prune_of_ne h
  rw [← hprune]
  show (((l.prune ip t).2.fails.put ip ((l.prune ip t).1 ++ [t'])).get? ip').getD [] = _
  rw [Dir.get?_put_of_ne h]
  rfl

@[simp] theorem Limiter.failures_clear_self : (l.clear ip).failures ip = [] := by
  unfold failures clear
  rw [Dir.get?_remove_self]
  rfl

theorem Limiter.after_snoc : Limiter.after max window (calls ++ [c]) = (Limiter.after max window calls).call c := by
  unfold Limiter.after
  rw [List.foldl_append]
  rfl

/-- No call changes the cap or the window. -/
theorem Limiter.after_config : (Limiter.after max window calls).max = max ∧
    (Limiter.after max window calls).window = window := by
  induction calls using List.reverseRecOn with
  | nil => exact ⟨rfl, rfl⟩
  | append_singleton calls c ih =>
    rw [after_snoc]
    cases c <;> exact ih

/-- What an earlier query dropped is not in a later window. -/
theorem recent_recent (h : t' ≤ t) : recent t window (recent t' window times) = recent t window times := by
  unfold recent
  rw [List.filter_filter]
  refine List.filter_congr fun f _ => ?_
  rw [Bool.eq_iff_iff, Bool.and_eq_true, decide_eq_true_eq, decide_eq_true_eq]
  exact and_iff_left_of_imp fun hf => Int.lt_of_le_of_lt (Int.sub_le_sub_right h window) hf

theorem recent_append (times' : List Time) :
    recent t window (times ++ times') = recent t window times ++ recent t window times' :=
  List.filter_append ..

/-- From the last reading on, what is kept for a client counts as its failures since it was cleared. -/
theorem recent_failures (hforward : Forward calls) (ht : ∀ r ∈ calls.flatMap (·.readings), r ≤ t) :
    recent t window ((Limiter.after max window calls).failures ip) = recent t window (failedSince ip calls) := by
  induction calls using List.reverseRecOn with
  | nil => rfl
  | append_singleton calls c ih =>
    unfold Forward at hforward ih
    rw [List.flatMap_append] at hforward ht
    have hkept := ih (List.pairwise_append.1 hforward).1 fun r hr => ht r (List.mem_append_left _ hr)
    have hnow : ∀ r ∈ c.readings, r ≤ t := fun r hr => ht r (List.mem_append_right _ (by simpa using hr))
    have hwindow : (Limiter.after max window calls).window = window := Limiter.after_config.2
    have hprune : ∀ i now, ((Limiter.after max window calls).prune i now).1 =
        recent now window ((Limiter.after max window calls).failures i) := by
      intro i now
      rw [Limiter.prune_fst, hwindow]
      rfl
    rw [Limiter.after_snoc, failedSince_snoc]
    -- pruning drops nothing that a later window holds
    cases c with
    | blocked i now =>
      show recent t window (((Limiter.after max window calls).prune i now).2.failures ip) =
        recent t window (failedSince ip calls ++ [])
      rw [List.append_nil]
      by_cases hi : ip = i
      · subst hi
        rw [Limiter.failures_prune_self, hprune, recent_recent (hnow now (.head _)), hkept]
      · rw [Limiter.failures_prune_of_ne hi, hkept]
    | fail i now recorded =>
      show recent t window (((Limiter.after max window calls).failRead i now recorded).failures ip) =
        recent t window (failedSince ip calls ++ (if i = ip then some recorded else none).toList)
      by_cases hi : ip = i
      · subst hi
        rw [Limiter.failures_failRead_self, recent_append, hprune, recent_recent (hnow now (.head _)),
          hkept, if_pos rfl, recent_append]
        rfl
      · rw [Limiter.failures_failRead_of_ne hi, hkept, if_neg (Ne.symm hi)]
        exact congrArg (recent t window) (List.append_nil _).symm
    | clear i =>
      show recent t window (((Limiter.after max window calls).clear i).failures ip) =
        recent t window (if i == ip then [] else failedSince ip calls ++ [])
      by_cases hi : ip = i
      · subst hi
        rw [Limiter.failures_clear_self, if_pos (beq_self_eq_true ip)]
      · rw [Limiter.failures_clear_of_ne hi, hkept, if_neg (by simpa using Ne.symm hi), List.append_nil]

/-! ## What is answered -/

/-- The failures since the last success are those among the calls for the client. -/
theorem failedSince_filter : failedSince ip (calls.filter fun c => c.ip == ip) = failedSince ip calls := by
  induction calls using List.reverseRecOn with
  | nil => rfl
  | append_singleton calls c ih =>
    rw [List.filter_append, failedSince_snoc, ← ih]
    by_cases hip : c.ip = ip
    · rw [List.filter_cons_of_pos (by simpa using hip), List.filter_nil, failedSince_snoc]
    · have hc : c.clears ip = false ∧ c.failedAt ip = none := by
        cases c <;> simp_all [LimiterCall.clears, LimiterCall.failedAt, LimiterCall.ip]
      rw [List.filter_cons_of_neg (by simpa using hip), List.filter_nil, List.append_nil, hc.1, hc.2]
      simp

/-- What `blocked` finds and leaves for the client. -/
theorem blocked_spec (max : Nat) (window : Time) (h : Forward (calls ++ [.blocked ip t])) :
    (((Limiter.after max window calls).blocked ip t).1 = true ↔
      max ≤ (recent t window (failedSince ip calls)).length) ∧
      (((Limiter.after max window calls).blocked ip t).2.fails.get? ip = none ∨
        recent t window (failedSince ip calls) ≠ []) := by
  unfold Forward at h
  rw [List.flatMap_append, List.pairwise_append] at h
  have hkept : ((Limiter.after max window calls).prune ip t).1 = recent t window (failedSince ip calls) := by
    rw [← recent_failures h.1 fun r hr => h.2.2 r hr t (by simp [LimiterCall.readings]), Limiter.prune_fst,
      Limiter.after_config.2]
    rfl
  rw [← hkept]
  constructor
  · show decide ((Limiter.after max window calls).max ≤ _) = true ↔ _
    rw [decide_eq_true_eq, Limiter.after_config.1]
    exact Iff.rfl
  · unfold Limiter.blocked Limiter.prune
    dsimp only
    split
    · exact .inl Dir.get?_remove_self
    · rename_i hne
      exact .inr hne

/-- At every query the limiter answers by the failures of the client since it was last cleared, strictly inside
the window; what is done for other clients makes no difference; and it keeps an entry for the client only if there
is such a failure. -/
theorem blocked_iff (max : Nat) (window : Time) (h : Forward (calls ++ [.blocked ip t])) :
    (((Limiter.after max window calls).blocked ip t).1 = true ↔
      max ≤ (recent t window (failedSince ip calls)).length) ∧
      (∀ calls', Forward (calls' ++ [.blocked ip t]) →
        calls'.filter (fun c => c.ip == ip) = calls.filter (fun c => c.ip == ip) →
        ((Limiter.after max window calls').blocked ip t).1 = ((Limiter.after max window calls).blocked ip t).1) ∧
      ((((Limiter.after max window calls).blocked ip t).2.fails.get? ip).isSome →
        ∃ f ∈ failedSince ip calls, t - window < f) := by
  obtain ⟨hcount, hentry⟩ := blocked_spec max window h
  refine ⟨hcount, fun calls' h' hsame => ?_, fun hsome => ?_⟩
  · have hcount' := (blocked_spec max window h').1
    rw [← failedSince_filter, hsame, failedSince_filter, ← hcount] at hcount'
    exact Bool.eq_iff_iff.2 hcount'
  · rcases hentry with hnone | hne
    · rw [hnone] at hsome
      cases hsome
    · obtain ⟨f, hf⟩ := List.exists_mem_of_ne_nil _ hne
      obtain ⟨hin, hlate⟩ := List.mem_filter.1 hf
      exact ⟨f, hin, by simpa using hlate⟩

/-- A failure exactly one window before the query does not count, a later one does. -/
def boundaryCalls : List LimiterCall :=
  [.fail "a" 0 0, .fail "b" 1 1, .fail "a" 5 5, .clear "b", .fail "a" 15 15]

theorem blocked_iff_boundary :
    (((Limiter.after 2 10 boundaryCalls).blocked "a" 15).1 = true ↔
        2 ≤ (recent 15 10 (failedSince "a" boundaryCalls)).length) ∧
      (∀ calls', Forward (calls' ++ [.blocked "a" 15]) →
        calls'.filter (fun c => c.ip == "a") = boundaryCalls.filter (fun c => c.ip == "a") →
        ((Limiter.after 2 10 calls').blocked "a" 15).1 = ((Limiter.after 2 10 boundaryCalls).blocked "a" 15).1) ∧
      ((((Limiter.after 2 10 boundaryCalls).blocked "a" 15).2.fails.get? "a").isSome →
        ∃ f ∈ failedSince "a" boundaryCalls, 15 - 10 < f) :=
  blocked_iff 2 10 (by unfold Forward; decide)

end Kept

end Nixbox.Auth
