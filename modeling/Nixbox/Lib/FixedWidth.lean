/-
Numbers written in a fixed number of digits: texts of such fields compare as their numbers do, field by
field, and so do fractions whose zeros at the end are dropped, if what follows them comes before every
digit.
-/
import Mathlib.Algebra.Group.Nat.Defs
import Mathlib.Tactic.Common
import Mathlib.Data.Char

namespace FixedWidth

variable {α : Type}

/-- The last `w` digits of a number. -/
def digits : Nat → Nat → List Char
  | 0, _ => []
  | w + 1, n => digits w (n / 10) ++ [Nat.digitChar (n % 10)]

/-- Without the zeros at the end. -/
def trimZeros : List Char → List Char
  | [] => []
  | c :: cs => if trimZeros cs = [] ∧ c = '0' then [] else c :: trimZeros cs

section Order

variable [LT α] {a b x y : List α}

/-- Parts of the same length are compared first. -/
theorem append_lt_append_iff (h : a.length = b.length) : a ++ x < b ++ y ↔ a < b ∨ (a = b ∧ x < y) := by
  induction a generalizing b with
  | nil =>
    obtain rfl := List.length_eq_zero_iff.1 h.symm
    simp
  | cons c a ih =>
    cases b with
    | nil => cases h
    | cons d b =>
      rw [List.cons_append, List.cons_append, List.cons_lt_cons_iff, List.cons_lt_cons_iff, ih (Nat.succ.inj h),
        List.cons.injEq]
      tauto

end Order

section Digits

variable {w n m : Nat} {x y : List Char} {c : Char}

theorem length_digits (w n : Nat) : (digits w n).length = w := by
  induction w generalizing n with
  | zero => rfl
  | succ w ih => rw [digits, List.length_append, ih, List.length_singleton]

theorem digitChar_lt_iff : ∀ n < 10, ∀ m < 10, Nat.digitChar n < Nat.digitChar m ↔ n < m := by decide

theorem digitChar_inj : ∀ n < 10, ∀ m < 10, Nat.digitChar n = Nat.digitChar m → n = m := by decide

theorem digits_inj (hn : n < 10 ^ w) (hm : m < 10 ^ w) (h : digits w n = digits w m) : n = m := by
  induction w generalizing n m with
  | zero =>
    rw [Nat.pow_zero] at hn hm
    omega
  | succ w ih =>
    rw [Nat.pow_succ] at hn hm
    obtain ⟨hfront, hlast⟩ := List.append_inj' h rfl
    have hfront := ih (Nat.div_lt_of_lt_mul (by omega)) (Nat.div_lt_of_lt_mul (by omega)) hfront
    have hlast := digitChar_inj _ (Nat.mod_lt _ (by decide)) _ (Nat.mod_lt _ (by decide)) (List.cons.inj hlast).1
    omega

theorem digits_lt_iff (hn : n < 10 ^ w) (hm : m < 10 ^ w) : digits w n < digits w m ↔ n < m := by
  induction w generalizing n m with
  | zero =>
    rw [Nat.pow_zero] at hn hm
    refine iff_of_false (List.not_lt_nil _) ?_
    omega
  | succ w ih =>
    rw [Nat.pow_succ] at hn hm
    have hn' : n / 10 < 10 ^ w := Nat.div_lt_of_lt_mul (by omega)
    have hm' : m / 10 < 10 ^ w := Nat.div_lt_of_lt_mul (by omega)
    have heq : digits w (n / 10) = digits w (m / 10) ↔ n / 10 = m / 10 := ⟨digits_inj hn' hm', fun h => by rw [h]⟩
    have hlast : [Nat.digitChar (n % 10)] < [Nat.digitChar (m % 10)] ↔ n % 10 < m % 10 := by
      rw [List.cons_lt_cons_iff, ← digitChar_lt_iff _ (Nat.mod_lt _ (by decide)) _ (Nat.mod_lt _ (by decide))]
      simp
    rw [digits, digits, append_lt_append_iff (by rw [length_digits, length_digits]), ih hn' hm', heq, hlast]
    omega

/-- A field and a mark after it, and what follows. -/
theorem field_lt_iff (hn : n < 10 ^ w) (hm : m < 10 ^ w) :
    digits w n ++ x < digits w m ++ y ↔ n < m ∨ (n = m ∧ x < y) := by
  have heq : digits w n = digits w m ↔ n = m := ⟨digits_inj hn hm, fun h => by rw [h]⟩
  rw [append_lt_append_iff (by rw [length_digits, length_digits]), digits_lt_iff hn hm, heq]

end Digits

section Trim

variable {a b tail : List Char} {c : Char}

theorem trimZeros_eq_nil : trimZeros a = [] ↔ ∀ c ∈ a, c = '0' := by
  induction a with
  | nil => simp [trimZeros]
  | cons c a ih =>
    unfold trimZeros
    rw [List.forall_mem_cons, ← ih]
    split
    · rename_i h
      simp [h]
    · rename_i h
      simp only [List.cons_ne_nil, false_iff]
      exact fun hzero => h hzero.symm

/-- Zeros come first. -/
theorem zeros_le (hlen : a.length = b.length) (hzero : ∀ c ∈ a, c = '0') (hb : ∀ c ∈ b, '0' ≤ c) :
    a < b ∨ a = b := by
  induction a generalizing b with
  | nil => exact .inr (List.length_eq_zero_iff.1 hlen.symm).symm
  | cons c a ih =>
    cases b with
    | nil => cases hlen
    | cons d b =>
      obtain ⟨rfl, hrest⟩ := List.forall_mem_cons.1 hzero
      obtain ⟨hd, hrest'⟩ := List.forall_mem_cons.1 hb
      rw [List.cons_lt_cons_iff, List.cons.injEq]
      rcases lt_or_eq_of_le hd with hlt | rfl
      · exact .inl (.inl hlt)
      · exact (ih (Nat.succ.inj hlen) hrest hrest').imp (fun h => .inr ⟨rfl, h⟩) fun h => ⟨rfl, h⟩

/-- What is left of two fractions of the same length, with a tail that begins before every digit. -/
theorem trimZeros_lt_iff {t : Char} {rest : List Char} (htail : t < '0') (hlen : a.length = b.length)
    (ha : ∀ c ∈ a, '0' ≤ c) (hb : ∀ c ∈ b, '0' ≤ c) :
    trimZeros a ++ t :: rest < trimZeros b ++ t :: rest ↔ a < b := by
  induction a generalizing b with
  | nil =>
    obtain rfl := List.length_eq_zero_iff.1 hlen.symm
    exact iff_of_false (List.lt_irrefl _) (List.lt_irrefl _)
  | cons c a ih =>
    cases b with
    | nil => cases hlen
    | cons d b =>
      have hc := ha c (List.mem_cons_self ..)
      have hd := hb d (List.mem_cons_self ..)
      unfold trimZeros
      simp only [trimZeros_eq_nil]
      by_cases hza : (∀ x ∈ a, x = '0') ∧ c = '0' <;> by_cases hzb : (∀ x ∈ b, x = '0') ∧ d = '0'
      · -- nothing is left of either
        have hzeros : c :: a < d :: b ∨ c :: a = d :: b := zeros_le hlen (List.forall_mem_cons.2 hza.symm) hb
        have hzeros' : d :: b < c :: a ∨ d :: b = c :: a := zeros_le hlen.symm (List.forall_mem_cons.2 hzb.symm) ha
        rw [if_pos hza, if_pos hzb]
        refine iff_of_false (List.lt_irrefl _) fun hlt => ?_
        exact hzeros'.elim (List.lt_asymm hlt) fun heq => List.lt_irrefl _ (heq ▸ hlt)
      · -- the tail of the one against a digit of the other
        rw [if_pos hza, if_neg hzb]
        refine iff_of_true ?_ ?_
        · exact List.cons_lt_cons_iff.2 (.inl (lt_of_lt_of_le htail hd))
        · refine (zeros_le hlen (List.forall_mem_cons.2 hza.symm) hb).resolve_right fun heq => hzb ?_
          cases heq
          exact hza
      · rw [if_neg hza, if_pos hzb]
        refine iff_of_false (fun hlt => ?_) fun hlt => ?_
        · rcases List.cons_lt_cons_iff.1 hlt with hct | ⟨rfl, -⟩
          · exact lt_asymm hct (lt_of_lt_of_le htail hc)
          · exact lt_irrefl _ (lt_of_lt_of_le htail hc)
        · rcases zeros_le hlen.symm (List.forall_mem_cons.2 hzb.symm) ha with hlt' | heq
          · exact List.lt_asymm hlt hlt'
          · cases heq
            exact hza hzb
      · rw [if_neg hza, if_neg hzb, List.cons_append, List.cons_append, List.cons_lt_cons_iff, List.cons_lt_cons_iff,
          ih (Nat.succ.inj hlen) (fun x hx => ha x (.tail _ hx)) fun x hx => hb x (.tail _ hx)]

end Trim

end FixedWidth
