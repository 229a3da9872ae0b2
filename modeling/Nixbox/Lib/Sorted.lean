/-
Lists sorted by a key: the order the elements come in does not matter, nor whether the sort is
stable, where no two elements share a key.
-/
import Mathlib.Data.List.Sort
import Mathlib.Data.List.Forall2

namespace Sorted

variable {α β κ : Type} {l l' : List α}

/-- The same elements in some order, each up to `R`. -/
def Alike (R : α → α → Prop) (l l' : List α) : Prop := ∃ m, l.Perm m ∧ List.Forall₂ R m l'

section Alike

variable {R : α → α → Prop}

theorem map_eq_of_forall₂ {f : α → β} (h : List.Forall₂ R l l')
    (hf : ∀ a ∈ l, ∀ b ∈ l', R a b → f a = f b) :
    l.map f = l'.map f := by
  induction h with
  | nil => rfl
  | cons hab _ ih =>
    rw [List.map_cons, List.map_cons, hf _ (.head _) _ (.head _) hab,
      ih fun a ha b hb => hf a (.tail _ ha) b (.tail _ hb)]

theorem Alike.map_perm {f : α → β} (h : Alike R l l') (hf : ∀ a ∈ l, ∀ b ∈ l', R a b → f a = f b) :
    (l.map f).Perm (l'.map f) := by
  obtain ⟨m, hperm, hall⟩ := h
  rw [← map_eq_of_forall₂ hall fun a ha => hf a (hperm.mem_iff.2 ha)]
  exact hperm.map f

/-- A property `R` respects holds of an element of the one list if it does of the other. -/
theorem Alike.exists_iff {P : α → Prop} (h : Alike R l l') (hP : ∀ a b, R a b → (P a ↔ P b)) :
    (∃ a ∈ l, P a) ↔ ∃ a ∈ l', P a := by
  have hperm := h.map_perm (f := P) fun a _ b _ hab => propext (hP a b hab)
  have hmem := hperm.mem_iff (a := True)
  simpa using hmem

end Alike

theorem keys_of_nodup {key : α → κ} (h : (l.map key).Nodup) : ∀ a ∈ l, ∀ b ∈ l, key a = key b → a = b :=
  fun _ ha _ hb => List.inj_on_of_nodup_map h ha hb

section Keys

variable [LinearOrder κ] {key : α → κ}

/-- What a sort may leave that need not be stable: the elements, none behind one with a greater key. -/
def SortsTo (key : α → κ) (l l' : List α) : Prop := l'.Perm l ∧ l'.Pairwise fun a b => ¬key b < key a

theorem pairwise_sorted [DecidableRel fun a b : α => key a ≤ key b] (l : List α) :
    (l.insertionSort fun a b => key a ≤ key b).Pairwise fun a b => key a ≤ key b := by
  have : Std.Total fun a b : α => key a ≤ key b := ⟨fun a b => le_total _ _⟩
  have : IsTrans α fun a b : α => key a ≤ key b := ⟨fun a b c => le_trans⟩
  exact List.pairwise_insertionSort _ l

/-- Of lists with the same elements only one is sorted, if the keys tell the elements apart. -/
theorem eq_of_perm (hperm : l.Perm l') (hkeys : ∀ a ∈ l, ∀ b ∈ l, key a = key b → a = b)
    (h : l.Pairwise fun a b => key a ≤ key b) (h' : l'.Pairwise fun a b => key a ≤ key b) : l = l' :=
  hperm.eq_of_pairwise (fun a b ha hb hab hba => hkeys a ha b (hperm.mem_iff.2 hb) (le_antisymm hab hba)) h h'

theorem insertionSort_perm [DecidableRel fun a b : α => key a ≤ key b] (hperm : l.Perm l')
    (hkeys : ∀ a ∈ l, ∀ b ∈ l, key a = key b → a = b) :
    (l.insertionSort fun a b => key a ≤ key b) = l'.insertionSort fun a b => key a ≤ key b := by
  refine eq_of_perm ?_ (fun a ha b hb => ?_) (pairwise_sorted l) (pairwise_sorted l')
  · exact ((List.perm_insertionSort _ l).trans hperm).trans (List.perm_insertionSort _ l').symm
  · rw [List.mem_insertionSort] at ha hb
    exact hkeys a ha b hb

theorem sortsTo_iff [DecidableRel fun a b : α => key a ≤ key b]
    (hkeys : ∀ a ∈ l, ∀ b ∈ l, key a = key b → a = b) :
    SortsTo key l l' ↔ l' = l.insertionSort fun a b => key a ≤ key b := by
  unfold SortsTo
  simp only [not_lt]
  constructor
  · rintro ⟨hperm, hsorted⟩
    refine (eq_of_perm ((List.perm_insertionSort _ l).trans hperm.symm) (fun a ha b hb => ?_)
      (pairwise_sorted l) hsorted).symm
    rw [List.mem_insertionSort] at ha hb
    exact hkeys a ha b hb
  · rintro rfl
    exact ⟨List.perm_insertionSort _ l, pairwise_sorted l⟩

end Keys

end Sorted
