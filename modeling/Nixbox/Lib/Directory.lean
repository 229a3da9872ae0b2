/-
Directories as finite maps from names to contents, each name listed once: reading, writing in
place, and removing an entry.
-/
import Mathlib.Tactic.Common
import Mathlib.Data.List.Nodup

namespace Directory

/-- The entries of a directory, each name once. -/
@[ext] structure Dir (α : Type) where
  entries : List (String × α)
  nodup : (entries.map Prod.fst).Nodup

namespace Dir

variable {α : Type} {d : Dir α} {n m k : String} {a b v : α}

instance [DecidableEq α] : DecidableEq (Dir α) := fun a b =>
  decidable_of_iff (a.entries = b.entries) Dir.ext_iff.symm

/-- No entry. -/
def empty : Dir α := ⟨[], .nil⟩

/-- The content of the entry `n`. -/
def get? (d : Dir α) (n : String) : Option α := d.entries.lookup n

/-- Replace the content under `n` in a list of entries, or append it. -/
def putEntry (n : String) (a : α) : List (String × α) → List (String × α)
  | [] => [(n, a)]
  | e :: es => if e.1 = n then (n, a) :: es else e :: putEntry n a es

theorem lookup_cons_ite (es : List (String × α)) :
    ((k, v) :: es).lookup m = if m = k then some v else es.lookup m := by
  rw [List.lookup_cons]
  by_cases h : m = k
  · rw [if_pos h, beq_iff_eq.2 h]
  · rw [if_neg h, beq_eq_false_iff_ne.2 h]

theorem mem_names_putEntry (es : List (String × α)) :
    m ∈ (putEntry n a es).map Prod.fst ↔ m = n ∨ m ∈ es.map Prod.fst := by
  induction es with
  | nil => simp [putEntry]
  | cons e es ih =>
    unfold putEntry
    split
    · rename_i he; simp [he]
    · rw [List.map_cons, List.mem_cons, ih, List.map_cons, List.mem_cons]; exact or_left_comm

theorem nodup_putEntry {es : List (String × α)} (h : (es.map Prod.fst).Nodup) :
    ((putEntry n a es).map Prod.fst).Nodup := by
  induction es with
  | nil => simp [putEntry]
  | cons e es ih =>
    rw [List.map_cons, List.nodup_cons] at h
    unfold putEntry
    split
    · rename_i he; subst he; exact List.nodup_cons.2 h
    · rename_i he
      rw [List.map_cons, List.nodup_cons, mem_names_putEntry]
      exact ⟨not_or.2 ⟨he, h.1⟩, ih h.2⟩

theorem lookup_putEntry (es : List (String × α)) :
    (putEntry n a es).lookup m = if m = n then some a else es.lookup m := by
  induction es with
  | nil => exact lookup_cons_ite []
  | cons e es ih =>
    obtain ⟨k, v⟩ := e
    unfold putEntry
    split
    · rename_i hk
      subst hk
      rw [lookup_cons_ite, lookup_cons_ite]
      split <;> rfl
    · rename_i hk
      rw [lookup_cons_ite, ih, lookup_cons_ite]
      by_cases h : m = n
      · subst h; rw [if_pos rfl, if_neg (Ne.symm hk), if_pos rfl]
      · rw [if_neg h, if_neg h]

theorem lookup_filter_ne (es : List (String × α)) :
    (es.filter fun e => e.1 ≠ n).lookup m = if m = n then none else es.lookup m := by
  induction es with
  | nil => simp
  | cons e es ih =>
    obtain ⟨k, v⟩ := e
    by_cases hk : k = n
    · subst hk
      rw [List.filter_cons_of_neg (by simp), ih, lookup_cons_ite]
      split <;> rfl
    · rw [List.filter_cons_of_pos (by simpa using hk), lookup_cons_ite, ih, lookup_cons_ite]
      by_cases h : m = n
      · subst h; rw [if_pos rfl, if_neg (Ne.symm hk), if_pos rfl]
      · rw [if_neg h, if_neg h]

/-- Write the content of `n`. -/
def put (d : Dir α) (n : String) (a : α) : Dir α := ⟨putEntry n a d.entries, nodup_putEntry d.nodup⟩

/-- Remove the entry `n`, if it is there. -/
def remove (d : Dir α) (n : String) : Dir α where
  entries := d.entries.filter fun e => e.1 ≠ n
  nodup := d.nodup.sublist (List.filter_sublist.map _)

@[simp] theorem get?_empty : (empty : Dir α).get? n = none := rfl

theorem get?_put : (d.put n a).get? m = if m = n then some a else d.get? m := lookup_putEntry d.entries

@[simp] theorem get?_put_self : (d.put n a).get? n = some a := by rw [get?_put, if_pos rfl]

theorem get?_put_of_ne (h : m ≠ n) : (d.put n a).get? m = d.get? m := by rw [get?_put, if_neg h]

theorem get?_remove : (d.remove n).get? m = if m = n then none else d.get? m :=
  lookup_filter_ne d.entries

@[simp] theorem get?_remove_self : (d.remove n).get? n = none := by rw [get?_remove, if_pos rfl]

theorem get?_remove_of_ne (h : m ≠ n) : (d.remove n).get? m = d.get? m := by
  rw [get?_remove, if_neg h]

/-- Write the entries in order. -/
def putAll (d : Dir α) (es : List (String × α)) : Dir α := es.foldl (fun d e => d.put e.1 e.2) d

/-- What is found was written, or there before. -/
theorem get?_putAll {es : List (String × α)} (h : (d.putAll es).get? n = some a) :
    (n, a) ∈ es ∨ d.get? n = some a := by
  induction es generalizing d with
  | nil => exact .inr h
  | cons e es ih =>
    rcases ih h with hmem | hput
    · exact .inl (.tail _ hmem)
    · rw [get?_put] at hput
      split at hput
      · rename_i hn
        cases hput
        exact .inl (hn ▸ .head _)
      · exact .inr hput

theorem get?_putAll_of_not_mem {es : List (String × α)} (h : n ∉ es.map Prod.fst) :
    (d.putAll es).get? n = d.get? n := by
  induction es generalizing d with
  | nil => rfl
  | cons e es ih =>
    obtain ⟨hne, h⟩ := not_or.1 (mt List.mem_cons.2 h)
    exact (ih h).trans (get?_put_of_ne hne)

/-- Nothing written after an entry takes its place if its name comes once. -/
theorem get?_putAll_of_mem {es : List (String × α)} (hnodup : (es.map Prod.fst).Nodup) (h : (n, a) ∈ es) :
    (d.putAll es).get? n = some a := by
  induction es generalizing d with
  | nil => cases h
  | cons e es ih =>
    obtain ⟨hn, hnodup⟩ := List.nodup_cons.1 hnodup
    rcases List.mem_cons.1 h with rfl | h
    · exact (get?_putAll_of_not_mem hn).trans get?_put_self
    · exact ih hnodup h

theorem get?_of_mem (h : (n, a) ∈ d.entries) : d.get? n = some a := by
  obtain ⟨es, hd⟩ := d
  unfold get?
  show es.lookup n = some a
  replace h : (n, a) ∈ es := h
  induction es with
  | nil => cases h
  | cons e es ih =>
    obtain ⟨k, v⟩ := e
    rw [List.map_cons, List.nodup_cons] at hd
    rw [lookup_cons_ite]
    rcases List.mem_cons.1 h with he | h
    · cases he; rw [if_pos rfl]
    · rw [if_neg fun hn : n = k => hd.1 (List.mem_map.2 ⟨(n, a), h, hn⟩)]
      exact ih hd.2 h

theorem mem_of_get? (h : d.get? n = some a) : (n, a) ∈ d.entries := by
  obtain ⟨es, hd⟩ := d
  unfold get? at h
  show (n, a) ∈ es
  replace h : es.lookup n = some a := h
  clear hd
  induction es with
  | nil => cases h
  | cons e es ih =>
    obtain ⟨k, v⟩ := e
    rw [lookup_cons_ite] at h
    split at h
    · rename_i hk
      cases h
      rw [hk]
      exact List.mem_cons_self ..
    · exact List.mem_cons_of_mem _ (ih h)

end Dir

end Directory
