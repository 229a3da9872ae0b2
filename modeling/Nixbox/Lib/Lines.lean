/-
Lines of a list that is read in parts: the pieces a separator ends, and what follows the last one.
Reading on from there gives the same pieces as reading the whole.
-/
import Mathlib.Tactic.Common

namespace Lines

variable {α : Type} [DecidableEq α] {a : α} {l m r : List α}

/-- The pieces of the list that the separator ends. -/
def ended (a : α) (l : List α) : List (List α) := (l.splitOn a).dropLast

/-- What follows the last separator. -/
def rest (a : α) (l : List α) : List α := (l.splitOn a).getLast (List.splitOn_ne_nil a l)

/-- The lines of the list: an unended last one counts if it is not empty. -/
def lines (a : α) (l : List α) : List (List α) := ended a l ++ if rest a l = [] then [] else [rest a l]

theorem ended_append_rest (a : α) (l : List α) : ended a l ++ [rest a l] = l.splitOn a :=
  List.dropLast_concat_getLast _

theorem ended_rest_eq {ls : List (List α)} (h : l.splitOn a = ls ++ [r]) : ended a l = ls ∧ rest a l = r := by
  rw [← ended_append_rest] at h
  obtain ⟨hl, hr⟩ := List.append_inj' h rfl
  exact ⟨hl, List.singleton_inj.1 hr⟩

/-- A list without the separator is its own rest. -/
theorem ended_rest_of_not_mem (h : a ∉ l) : ended a l = [] ∧ rest a l = l :=
  ended_rest_eq (by rw [List.splitOn_eq_singleton h, List.nil_append])

/-- The last separator parts the ended pieces from the rest. -/
theorem ended_rest_cases (a : α) (l : List α) : (a ∉ l ∧ ended a l = [] ∧ rest a l = l) ∨
    ∃ x y, l = x ++ a :: y ∧ a ∉ y ∧ ended a l = x.splitOn a ∧ rest a l = y := by
  by_cases h : a ∈ l
  · obtain ⟨y, x, hl, hy⟩ := List.eq_append_cons_of_mem (List.mem_reverse.2 h)
    have hl' : l = x.reverse ++ a :: y.reverse := by
      rw [← List.reverse_reverse l, hl]
      simp
    have hy' : a ∉ y.reverse := by simpa using hy
    refine .inr ⟨x.reverse, y.reverse, hl', hy', ended_rest_eq ?_⟩
    rw [hl', List.splitOn_append_cons_self, List.splitOn_eq_singleton hy']
  · obtain ⟨he, hr⟩ := ended_rest_of_not_mem h
    exact .inl ⟨h, he, hr⟩

theorem not_mem_rest (a : α) (l : List α) : a ∉ rest a l := by
  rcases ended_rest_cases a l with ⟨h, -, hr⟩ | ⟨x, y, -, h, -, hr⟩ <;> rw [hr] <;> exact h

@[simp] theorem ended_nil : ended a [] = [] := (ended_rest_of_not_mem List.not_mem_nil).1

@[simp] theorem rest_nil : rest a [] = [] := (ended_rest_of_not_mem List.not_mem_nil).2

/-! ## Reading on -/

/-- Reading on splits what was left with what is new. -/
theorem splitOn_append (a : α) (l m : List α) : (l ++ m).splitOn a = ended a l ++ (rest a l ++ m).splitOn a := by
  rcases ended_rest_cases a l with ⟨-, he, hr⟩ | ⟨x, y, hl, -, he, hr⟩
  · rw [he, hr, List.nil_append]
  · rw [he, hr, hl, List.append_assoc, List.cons_append, List.splitOn_append_cons_self]

theorem ended_rest_append (a : α) (l m : List α) :
    ended a (l ++ m) = ended a l ++ ended a (rest a l ++ m) ∧ rest a (l ++ m) = rest a (rest a l ++ m) := by
  refine ended_rest_eq ?_
  rw [splitOn_append, ← ended_append_rest a (rest a l ++ m), List.append_assoc]

theorem lines_append (a : α) (l m : List α) : lines a (l ++ m) = ended a l ++ lines a (rest a l ++ m) := by
  obtain ⟨he, hr⟩ := ended_rest_append a l m
  unfold lines
  rw [he, hr, List.append_assoc]

theorem lines_of_not_mem (h : a ∉ l) : lines a l = if l = [] then [] else [l] := by
  obtain ⟨he, hr⟩ := ended_rest_of_not_mem h
  unfold lines
  rw [he, hr, List.nil_append]

theorem lines_append_cons (h : a ∉ l) : lines a (l ++ a :: m) = l :: lines a m := by
  have hs : (l ++ a :: m).splitOn a = (l :: ended a m) ++ [rest a m] := by
    rw [List.splitOn_append_cons_self, List.splitOn_eq_singleton h, List.singleton_append, List.cons_append,
      ended_append_rest]
  obtain ⟨he, hr⟩ := ended_rest_eq hs
  unfold lines
  rw [he, hr, List.cons_append]

theorem lines_eq_nil : lines a l = [] ↔ l = [] := by
  constructor
  · intro h
    rcases ended_rest_cases a l with ⟨hl, -, -⟩ | ⟨x, y, -, -, he, -⟩
    · rw [lines_of_not_mem hl] at h
      by_contra hne
      simp [hne] at h
    · simp [lines, he, List.splitOn_ne_nil] at h
  · rintro rfl
    simp [lines, ended_nil, rest_nil]

/-- The lines have what the list has, but for the separator. -/
theorem exists_mem_lines {x : α} : (∃ p ∈ lines a l, x ∈ p) ↔ x ∈ l ∧ x ≠ a := by
  induction h : l.length using Nat.strongRecOn generalizing l with
  | _ n ih =>
    by_cases hl : a ∈ l
    · obtain ⟨y, z, rfl, hy⟩ := List.eq_append_cons_of_mem hl
      have hz := ih z.length (by rw [← h]; simp; omega) rfl
      simp only [lines_append_cons hy, List.mem_cons, List.mem_append, exists_eq_or_imp, hz]
      constructor
      · rintro (hx | ⟨hx, hne⟩)
        · exact ⟨.inl hx, ne_of_mem_of_not_mem hx hy⟩
        · exact ⟨.inr (.inr hx), hne⟩
      · rintro ⟨hx | rfl | hx, hne⟩
        · exact .inl hx
        · exact absurd rfl hne
        · exact .inr ⟨hx, hne⟩
    · rw [lines_of_not_mem hl]
      constructor
      · rintro ⟨p, hp, hx⟩
        split at hp
        · cases hp
        · obtain rfl := List.mem_singleton.1 hp
          exact ⟨hx, ne_of_mem_of_not_mem hx hl⟩
      · rintro ⟨hx, -⟩
        exact ⟨l, by rw [if_neg (List.ne_nil_of_mem hx)]; exact List.mem_singleton_self l, hx⟩

/-- More input leaves the lines as they are only if it is none, or ends an unended last line. -/
theorem lines_append_eq_iff : lines a (l ++ m) = lines a l ↔ m = [] ∨ (m = [a] ∧ rest a l ≠ []) := by
  have hl : lines a l = ended a l ++ lines a (rest a l) := by simpa using lines_append a l []
  have hr := not_mem_rest a l
  rw [lines_append, hl, List.append_right_inj]
  -- what was ended stays, so only the rest and what is added matter
  generalize rest a l = r at hr
  by_cases hm : a ∈ m
  · obtain ⟨x, y, rfl, hx⟩ := List.eq_append_cons_of_mem hm
    have hrx : a ∉ r ++ x := by simp [hr, hx]
    rw [← List.append_assoc, lines_append_cons hrx, lines_of_not_mem hr]
    constructor
    · intro h
      split at h
      · cases h
      · rename_i hne
        obtain ⟨hrx, hy⟩ := List.cons.inj h
        replace hrx : x = [] := by simpa using hrx
        exact .inr ⟨by rw [hrx, lines_eq_nil.1 hy]; rfl, hne⟩
    · rintro (h | ⟨h, hne⟩)
      · simp at h
      · obtain ⟨rfl, rfl⟩ : x = [] ∧ y = [] := by
          cases x with
          | nil => simpa using h
          | cons z x => simp at h
        simp [hne, lines_eq_nil.2 rfl]
  · have hrm : a ∉ r ++ m := by simp [hr, hm]
    rw [lines_of_not_mem hrm, lines_of_not_mem hr]
    constructor
    · intro h
      left
      by_cases hre : r = []
      · by_contra hne
        simp [hre, hne] at h
      · simpa [hre] using h
    · rintro (rfl | ⟨rfl, -⟩)
      · rw [List.append_nil]
      · simp at hm

end Lines
