/-
Falling back: names asked in order, of which some are there and some of those answer. Names come in
groups; asking only the first name of a group that is there differs from asking them all where that
one is silent and another of its group is not.
-/
import Mathlib.Data.List.Basic

namespace Fallback

variable {α β : Type}

/-! ## Names kept once -/

section Keep

variable {kept l : List α} {a : α}

theorem findSome?_repeated {f : α → Option β} (h : a ∈ kept) :
    (kept ++ a :: l).findSome? f = (kept ++ l).findSome? f := by
  rw [List.findSome?_append, List.findSome?_append, List.findSome?_cons]
  cases hfound : kept.findSome? f with
  | some => rfl
  | none =>
    rw [List.findSome?_eq_none_iff.1 hfound a h]

variable [DecidableEq α]

/-- A name is kept where it comes first. -/
def keep (kept : List α) (a : α) : List α := if a ∈ kept then kept else kept ++ [a]

theorem keep_of_mem (h : a ∈ kept) : keep kept a = kept := if_pos h

theorem mem_keep (b : α) : b ∈ keep kept a ↔ b ∈ kept ∨ b = a := by
  unfold keep
  split
  · rename_i ha
    exact ⟨.inl, fun h => h.elim id fun h => h ▸ ha⟩
  · rw [List.mem_append, List.mem_singleton]

theorem mem_foldl_keep (l : List α) (b : α) : b ∈ l.foldl keep kept ↔ b ∈ kept ∨ b ∈ l := by
  induction l generalizing kept with
  | nil => simp
  | cons a l ih => rw [List.foldl_cons, ih, mem_keep, List.mem_cons, or_assoc]

/-- A name that has come before makes no difference. -/
theorem foldl_keep_repeated {pre : List α} (post : List α) (h : a ∈ pre) :
    (pre ++ a :: post).foldl keep [] = (pre ++ post).foldl keep [] := by
  rw [List.foldl_append, List.foldl_append, List.foldl_cons, keep_of_mem ((mem_foldl_keep pre a).2 (.inr h))]

/-- The first answer is the first answer of the names kept. -/
theorem findSome?_foldl_keep {f : α → Option β} (l kept : List α) :
    (l.foldl keep kept).findSome? f = (kept ++ l).findSome? f := by
  induction l generalizing kept with
  | nil => rw [List.foldl_nil, List.append_nil]
  | cons a l ih =>
    rw [List.foldl_cons, ih]
    unfold keep
    split
    · rename_i ha
      rw [findSome?_repeated ha]
    · rw [List.append_assoc, List.singleton_append]

theorem head?_foldl_keep (l kept : List α) : (l.foldl keep kept).head? = (kept ++ l).head? := by
  induction l generalizing kept with
  | nil => rw [List.foldl_nil, List.append_nil]
  | cons a l ih =>
    rw [List.foldl_cons, ih]
    unfold keep
    split
    · rename_i ha
      obtain ⟨b, rest, rfl⟩ := List.exists_cons_of_ne_nil (List.ne_nil_of_mem ha)
      rfl
    · rw [List.append_assoc, List.singleton_append]

end Keep

/-! ## Groups -/

section Groups

variable (there : α → Bool) (ans : α → Option β) (last : List α) (default : β)

/-- The first name of a group that is there. -/
def best (group : List α) : Option α := group.find? there

/-- The first answer in the order of the names, or the last resort. -/
def answer (names : List α) : β := (names.findSome? ans).getD default

/-- No group before answers, the best of this one is silent and another of it says something else than
is found without it. -/
def PassedOver (groups : List (List α)) : Prop :=
  ∃ pre group post m, groups = pre ++ group :: post ∧ (∀ g ∈ pre, g.findSome? ans = none) ∧
    (best there group).bind ans = none ∧ group.findSome? ans = some m ∧
      answer ans default (post.filterMap (best there) ++ last) ≠ m

variable {there ans last default} {group : List α} {groups : List (List α)} {m : β}

/-- The best of a group says what the group says, or nothing. -/
theorem best_answer (hans : ∀ a, there a = false → ans a = none) (h : (best there group).bind ans = some m) :
    group.findSome? ans = some m := by
  induction group with
  | nil => exact nomatch h
  | cons a group ih =>
    unfold best at h
    rw [List.find?_cons] at h
    rw [List.findSome?_cons]
    cases ha : there a with
    | true =>
      rw [ha] at h
      have h : ans a = some m := h
      rw [h]
    | false =>
      rw [ha] at h
      rw [hans a ha]
      exact ih h

theorem passedOver_cons : PassedOver there ans last default (group :: groups) ↔
    ((best there group).bind ans = none ∧ ∃ m, group.findSome? ans = some m ∧
      answer ans default (groups.filterMap (best there) ++ last) ≠ m) ∨
    (group.findSome? ans = none ∧ PassedOver there ans last default groups) := by
  constructor
  · rintro ⟨pre, g, post, m, heq, hpre, hbest, hm, hne⟩
    cases pre with
    | nil =>
      cases heq
      exact .inl ⟨hbest, m, hm, hne⟩
    | cons g' pre =>
      cases heq
      exact .inr ⟨hpre _ (List.mem_cons_self ..), pre, g, post, m, rfl,
        fun x hx => hpre x (List.mem_cons_of_mem _ hx), hbest, hm, hne⟩
  · rintro (⟨hbest, m, hm, hne⟩ | ⟨hnone, pre, g, post, m, rfl, hpre, hbest, hm, hne⟩)
    · exact ⟨[], group, groups, m, rfl, fun _ h => absurd h List.not_mem_nil, hbest, hm, hne⟩
    · refine ⟨group :: pre, g, post, m, rfl, fun x hx => ?_, hbest, hm, hne⟩
      rcases List.mem_cons.1 hx with rfl | hx
      · exact hnone
      · exact hpre x hx

/-- A group that is passed over answers, though its best is silent. -/
theorem PassedOver.answered (h : PassedOver there ans last default groups) :
    ∃ group ∈ groups, (best there group).bind ans = none ∧ ∃ m, group.findSome? ans = some m := by
  obtain ⟨pre, group, post, m, rfl, -, hbest, hm, -⟩ := h
  exact ⟨group, List.mem_append_right _ (.head _), hbest, m, hm⟩

theorem answer_filterMap_cons : answer ans default ((group :: groups).filterMap (best there) ++ last) =
    ((best there group).bind ans).getD (answer ans default (groups.filterMap (best there) ++ last)) := by
  unfold answer
  rw [List.filterMap_cons]
  cases hbest : best there group with
  | none => rfl
  | some a =>
    dsimp only
    rw [List.cons_append, List.findSome?_cons, Option.bind_some]
    cases ans a <;> rfl

theorem answer_flatten_cons : answer ans default ((group :: groups).flatten ++ last) =
    (group.findSome? ans).getD (answer ans default (groups.flatten ++ last)) := by
  unfold answer
  rw [List.flatten_cons, List.append_assoc, List.findSome?_append]
  cases group.findSome? ans <;> rfl

/-- Asking the best of every group finds what asking them all finds unless a group is passed over. -/
theorem answer_best_iff (hans : ∀ a, there a = false → ans a = none) :
    answer ans default (groups.filterMap (best there) ++ last) = answer ans default (groups.flatten ++ last) ↔
      ¬ PassedOver there ans last default groups := by
  induction groups with
  | nil =>
    refine iff_of_true rfl ?_
    rintro ⟨pre, g, post, m, heq, -⟩
    exact absurd heq.symm (List.append_ne_nil_of_right_ne_nil _ (List.cons_ne_nil _ _))
  | cons group groups ih =>
    rw [answer_filterMap_cons, answer_flatten_cons, passedOver_cons]
    cases hall : group.findSome? ans with
    | none =>
      -- the group is silent
      have hbest : (best there group).bind ans = none := by
        by_contra hsome
        obtain ⟨m, hm⟩ := Option.ne_none_iff_exists'.1 hsome
        rw [best_answer hans hm] at hall
        exact nomatch hall
      rw [hbest]
      simpa using ih
    | some m =>
      cases hbest : (best there group).bind ans with
      | none => simp
      | some m' =>
        have hm : some m = some m' := hall.symm.trans (best_answer hans hbest)
        cases hm
        simp

/-- The first of the bests is the first name of all that is there. -/
theorem head?_best (hlast : ∀ a ∈ last, there a = true) :
    (groups.filterMap (best there) ++ last).head? = (groups.flatten ++ last).find? there := by
  induction groups with
  | nil =>
    cases last with
    | nil => rfl
    | cons a last =>
      show some a = (a :: last).find? there
      rw [List.find?_cons, hlast a (List.mem_cons_self ..)]
  | cons group groups ih =>
    rw [List.filterMap_cons, List.flatten_cons, List.append_assoc, List.find?_append, ← ih]
    show List.head? ((match best there group with | none => _ | some b => _) ++ last) = (best there group).or _
    cases best there group <;> rfl

end Groups

end Fallback
