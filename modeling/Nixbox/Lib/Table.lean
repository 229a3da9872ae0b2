/-
Tables of rows with an integer row id, kept in id order: a row inserted gets the id after the
largest one in the table, so an id freed at the end is given again. The order is a field of the
table, and with it the ids are unique.
-/
import Mathlib.Tactic.Common
import Mathlib.Data.List.Nodup

namespace Keyed

/-- A row has a rowid. -/
class HasId (ρ : Type) where
  rowid : ρ → Int

export HasId (rowid)

/-- Rows in the order of their ids. -/
@[ext] structure Table (ρ : Type) [HasId ρ] where
  rows : List ρ
  sorted : rows.Pairwise fun a b => rowid a < rowid b

namespace Table

variable {ρ : Type} [HasId ρ] {t : Table ρ} {r r' : ρ} {i : Int}

instance : Membership ρ (Table ρ) := ⟨fun t r => r ∈ t.rows⟩

instance [DecidableEq ρ] : DecidableEq (Table ρ) := fun a b =>
  decidable_of_iff (a.rows = b.rows) Table.ext_iff.symm

/-- No row. -/
def empty : Table ρ := ⟨[], .nil⟩

/-- The row with id `i`. -/
def find? (t : Table ρ) (i : Int) : Option ρ := t.rows.find? fun r => rowid r == i

/-- The id of the next row inserted: one more than the largest. -/
def nextId (t : Table ρ) : Int := (t.rows.getLast?.elim 0 rowid) + 1

theorem mem_iff : r ∈ t ↔ r ∈ t.rows := Iff.rfl

theorem not_mem_empty : r ∉ (empty : Table ρ) := List.not_mem_nil

theorem nodup_ids (t : Table ρ) : (t.rows.map rowid).Nodup :=
  List.pairwise_map.2 (t.sorted.imp fun h => Int.ne_of_lt h)

/-- Two rows of a table with one id are one row. -/
theorem eq_of_rowid (hr : r ∈ t) (hr' : r' ∈ t) (h : rowid r = rowid r') : r = r' :=
  List.inj_on_of_nodup_map t.nodup_ids hr hr' h

theorem find?_eq_some : t.find? i = some r ↔ r ∈ t ∧ rowid r = i := by
  unfold find?
  constructor
  · intro h
    exact ⟨List.mem_of_find?_eq_some h, by simpa using List.find?_some h⟩
  · rintro ⟨hr, rfl⟩
    rcases hf : t.rows.find? (fun x => rowid x == rowid r) with _ | x
    · exact absurd (List.find?_eq_none.1 hf r hr) (by simp)
    · have hx : rowid x = rowid r := by simpa using List.find?_some hf
      rw [eq_of_rowid (List.mem_of_find?_eq_some hf) hr hx]

theorem find?_eq_none : t.find? i = none ↔ ∀ r ∈ t, rowid r ≠ i := by
  unfold find?
  rw [List.find?_eq_none]
  simp only [beq_iff_eq, mem_iff]

theorem find?_mem (h : r ∈ t) : t.find? (rowid r) = some r := find?_eq_some.2 ⟨h, rfl⟩

theorem rowid_lt_nextId (h : r ∈ t) : rowid r < t.nextId := by
  unfold nextId
  rcases List.eq_nil_or_concat t.rows with he | ⟨l, x, he⟩
  · rw [mem_iff, he] at h; cases h
  · have hs := t.sorted
    rw [List.concat_eq_append] at he
    rw [he, List.pairwise_append] at hs
    rw [mem_iff, he, List.mem_append, List.mem_singleton] at h
    rw [he, List.getLast?_concat, Option.elim_some]
    rcases h with h | rfl
    · have := hs.2.2 r h x (List.mem_singleton.2 rfl); omega
    · omega

/-! ## Operations -/

/-- Insert the row `mk` makes from the next id. -/
def insert (t : Table ρ) (mk : Int → ρ) (hmk : ∀ i, rowid (mk i) = i) : Table ρ where
  rows := t.rows ++ [mk t.nextId]
  sorted := List.pairwise_append.2 ⟨t.sorted, List.pairwise_singleton _ _, fun a ha b hb => by
    rw [List.mem_singleton.1 hb, hmk]
    exact rowid_lt_nextId ha⟩

/-- Rewrite every row, keeping its id. -/
def mapRows (t : Table ρ) (f : ρ → ρ) (hf : ∀ r, rowid (f r) = rowid r) : Table ρ where
  rows := t.rows.map f
  sorted := List.pairwise_map.2 (t.sorted.imp fun {a b} h => by rw [hf, hf]; exact h)

/-- Rewrite the row with id `i`. -/
def modify (t : Table ρ) (i : Int) (f : ρ → ρ) (hf : ∀ r, rowid (f r) = rowid r) : Table ρ :=
  t.mapRows (fun r => if rowid r = i then f r else r) fun r => by split <;> simp [hf]

/-- Delete the rows that satisfy `p`. -/
def deleteWhere (t : Table ρ) (p : ρ → Bool) : Table ρ where
  rows := t.rows.filter fun r => !p r
  sorted := t.sorted.filter _

variable {mk : Int → ρ} {hmk : ∀ i, rowid (mk i) = i} {f : ρ → ρ} {hf : ∀ r, rowid (f r) = rowid r}
  {p : ρ → Bool}

@[simp] theorem mem_insert : r ∈ t.insert mk hmk ↔ r ∈ t ∨ r = mk t.nextId := by
  simp only [mem_iff, insert, List.mem_append, List.mem_singleton]

@[simp] theorem mem_mapRows : r ∈ t.mapRows f hf ↔ ∃ x ∈ t, f x = r := by
  simp only [mem_iff, mapRows, List.mem_map]

@[simp] theorem mem_deleteWhere : r ∈ t.deleteWhere p ↔ r ∈ t ∧ p r = false := by
  simp only [mem_iff, deleteWhere, List.mem_filter, Bool.not_eq_true']

theorem mem_modify : r ∈ t.modify i f hf ↔
    (r ∈ t ∧ rowid r ≠ i) ∨ ∃ x ∈ t, rowid x = i ∧ f x = r := by
  unfold modify
  rw [mem_mapRows]
  constructor
  · rintro ⟨x, hx, h⟩
    split at h
    · rename_i hi; exact .inr ⟨x, hx, hi, h⟩
    · rename_i hi; subst h; exact .inl ⟨hx, hi⟩
  · rintro (⟨hr, hi⟩ | ⟨x, hx, hi, h⟩)
    · exact ⟨r, hr, if_neg hi⟩
    · exact ⟨x, hx, by rw [if_pos hi]; exact h⟩

/-- A row of another id stays. -/
theorem mem_modify_of_ne (hf : ∀ r, rowid (f r) = rowid r) (hr : r ∈ t) (hi : rowid r ≠ i) :
    r ∈ t.modify i f hf :=
  mem_modify.2 (.inl ⟨hr, hi⟩)

@[simp] theorem find?_insert_self : (t.insert mk hmk).find? t.nextId = some (mk t.nextId) :=
  find?_eq_some.2 ⟨mem_insert.2 (.inr rfl), hmk _⟩

theorem find?_insert_of_some (h : t.find? i = some r) : (t.insert mk hmk).find? i = some r := by
  obtain ⟨hr, hi⟩ := find?_eq_some.1 h
  exact find?_eq_some.2 ⟨mem_insert.2 (.inl hr), hi⟩

theorem find?_mapRows : (t.mapRows f hf).find? i = (t.find? i).map f := by
  rcases h : t.find? i with _ | r
  · rw [find?_eq_none] at h
    refine find?_eq_none.2 fun r hr => ?_
    obtain ⟨x, hx, rfl⟩ := mem_mapRows.1 hr
    rw [hf]; exact h x hx
  · obtain ⟨hr, hi⟩ := find?_eq_some.1 h
    exact find?_eq_some.2 ⟨mem_mapRows.2 ⟨r, hr, rfl⟩, by rw [hf]; exact hi⟩

@[simp] theorem find?_modify_self : (t.modify i f hf).find? i = (t.find? i).map f := by
  unfold modify
  rw [find?_mapRows]
  rcases h : t.find? i with _ | r
  · rfl
  · rw [Option.map_some, Option.map_some, if_pos (find?_eq_some.1 h).2]

/-- Writing a row leaves the ids there are. -/
@[simp] theorem isSome_find?_modify {j : Int} : ((t.modify i f hf).find? j).isSome = (t.find? j).isSome := by
  unfold modify
  rw [find?_mapRows, Option.isSome_map]

/-- Deleting a row takes its id away and no other. -/
theorem isSome_find?_delete {j : Int} :
    ((t.deleteWhere fun r => rowid r == i).find? j).isSome = true ↔ (t.find? j).isSome = true ∧ j ≠ i := by
  simp only [Option.isSome_iff_exists, find?_eq_some, mem_deleteWhere, beq_eq_false_iff_ne]
  constructor
  · rintro ⟨r, ⟨hr, hne⟩, rfl⟩
    exact ⟨⟨r, hr, rfl⟩, hne⟩
  · rintro ⟨⟨r, hr, rfl⟩, hne⟩
    exact ⟨r, ⟨hr, hne⟩, rfl⟩

/-! ## A second key -/

/-- No two rows agree on `key`. -/
def UniqueBy {κ : Type} (key : ρ → κ) (t : Table ρ) : Prop := ∀ a ∈ t, ∀ b ∈ t, key a = key b → a = b

section UniqueBy

variable {κ : Type} {key : ρ → κ}

theorem uniqueBy_empty : UniqueBy key (empty : Table ρ) := fun _ h => absurd h not_mem_empty

theorem UniqueBy.insert (h : UniqueBy key t) (hnew : ∀ a ∈ t, key a ≠ key (mk t.nextId)) :
    UniqueBy key (t.insert mk hmk) := by
  intro a ha b hb hab
  rcases mem_insert.1 ha with ha | rfl <;> rcases mem_insert.1 hb with hb | rfl
  · exact h a ha b hb hab
  · exact absurd hab (hnew a ha)
  · exact absurd hab.symm (hnew b hb)
  · rfl

theorem UniqueBy.mapRows (h : UniqueBy key t) (hf : ∀ r, rowid (f r) = rowid r)
    (hkey : ∀ r, key (f r) = key r) : UniqueBy key (t.mapRows f hf) := by
  intro a ha b hb hab
  obtain ⟨x, hx, rfl⟩ := mem_mapRows.1 ha
  obtain ⟨y, hy, rfl⟩ := mem_mapRows.1 hb
  rw [hkey, hkey] at hab
  rw [h x hx y hy hab]

theorem UniqueBy.modify (h : UniqueBy key t) (hf : ∀ r, rowid (f r) = rowid r)
    (hkey : ∀ r, key (f r) = key r) : UniqueBy key (t.modify i f hf) :=
  h.mapRows _ fun r => by split <;> simp [hkey]

/-- A row of the modified table has the key of one before. -/
theorem exists_of_mem_modify (hf : ∀ r, rowid (f r) = rowid r) (hkey : ∀ r, key (f r) = key r)
    (hr : r ∈ t.modify i f hf) : ∃ x ∈ t, key x = key r := by
  rcases mem_modify.1 hr with ⟨hx, -⟩ | ⟨x, hx, -, rfl⟩
  · exact ⟨r, hx, rfl⟩
  · exact ⟨x, hx, (hkey x).symm⟩

theorem UniqueBy.deleteWhere (h : UniqueBy key t) : UniqueBy key (t.deleteWhere p) :=
  fun a ha b hb => h a (mem_deleteWhere.1 ha).1 b (mem_deleteWhere.1 hb).1

end UniqueBy

end Table

end Keyed
