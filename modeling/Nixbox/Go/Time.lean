/-
The text Go writes of an instant in UTC: a date and a time of day in fields of a fixed width, and a
fraction without zeros at the end. Texts of instants compare as the instants do.
-/
import Nixbox.Lib.Calendar
import Nixbox.Lib.FixedWidth

namespace Go

open Calendar FixedWidth

/-! ## Definitions -/

/-- `appendInt` of the `time` package: at least `width` digits. -/
def appendInt (x : Int) (width : Nat) : List Char :=
  (if x < 0 then ['-'] else []) ++ List.leftpad width '0' (Nat.toDigits 10 x.natAbs)

/-- `appendNano` for `.999999999`. -/
def appendNano (nanos : Nat) : List Char := if nanos = 0 then [] else '.' :: trimZeros (appendInt nanos 9)

/-- The date of an instant in UTC, which is counted in nanoseconds from the first of January 1970. -/
def utcDate (t : Int) : Date := date (daysBefore 1970 + t / 86400000000000)

/-- The seconds of the day before it. -/
def utcClock (t : Int) : Int := t / 1000000000 % 86400

/-- The nanoseconds of an instant. -/
def utcNanos (t : Int) : Nat := (t % 1000000000).toNat

/-- What `String` ends with in UTC. -/
def utcZone : List Char := " +0000 UTC".toList

/-- `String` of an instant in UTC, of the layout `2006-01-02 15:04:05.999999999 -0700 MST`. -/
def utcString (t : Int) : String :=
  let d := utcDate t
  let clock := utcClock t
  String.ofList (appendInt d.year 4 ++ ['-'] ++ appendInt d.month 2 ++ ['-'] ++ appendInt d.day 2 ++ [' '] ++
    appendInt (clock / 3600) 2 ++ [':'] ++ appendInt (clock % 3600 / 60) 2 ++ [':'] ++ appendInt (clock % 60) 2 ++
    appendNano (utcNanos t) ++ utcZone)

example : utcString 1704067200000000000 = "2024-01-01 00:00:00 +0000 UTC" ∧
    utcString 1709210096120000000 = "2024-02-29 12:34:56.12 +0000 UTC" := by decide +kernel

/-- The instant is in the years 1000 to 9999. -/
def InYears (t : Int) : Prop := 1000 ≤ (utcDate t).year ∧ (utcDate t).year ≤ 9999

/-! ## Fields -/

section Fields

variable {n m w : Nat} {x y : List Char}

theorem leftpad_concat {c d : Char} (w : Nat) (l : List Char) :
    List.leftpad (w + 1) c (l ++ [d]) = List.leftpad w c l ++ [d] := by
  simp [List.leftpad]

theorem digits_zero (w : Nat) : digits w 0 = List.replicate w '0' := by
  induction w with
  | zero => rfl
  | succ w ih =>
    rw [digits, ih, List.replicate_succ']
    rfl

/-- A number that fits is written in as many digits as the field has. -/
theorem leftpad_toDigits (hw : 0 < w) (hn : n < 10 ^ w) : List.leftpad w '0' (Nat.toDigits 10 n) = digits w n := by
  induction w generalizing n with
  | zero => exact absurd hw (lt_irrefl 0)
  | succ w ih =>
    rw [digits]
    by_cases hlast : n < 10
    · have hnil : List.leftpad w '0' [] = digits w 0 := by
        rw [digits_zero]
        simp [List.leftpad]
      rw [Nat.toDigits_of_lt_base hlast, Nat.div_eq_of_lt hlast, Nat.mod_eq_of_lt hlast, ← hnil, ← leftpad_concat]
      rfl
    · have hfront : n / 10 < 10 ^ w := Nat.div_lt_of_lt_mul (by rw [Nat.pow_succ] at hn; omega)
      have hpos : 0 < w := by
        by_contra hzero
        obtain rfl : w = 0 := by omega
        omega
      rw [Nat.toDigits_of_base_le (by decide) (not_lt.1 hlast), leftpad_concat, ih hpos hfront]

theorem appendInt_natCast (hw : 0 < w) (hn : n < 10 ^ w) : appendInt n w = digits w n := by
  unfold appendInt
  rw [if_neg (by omega), List.nil_append, Int.natAbs_natCast, leftpad_toDigits hw hn]

theorem digits_ge (w n : Nat) : ∀ c ∈ digits w n, '0' ≤ c := by
  have hdigit : ∀ n < 10, '0' ≤ Nat.digitChar n := by decide
  induction w generalizing n with
  | zero => exact fun c hc => absurd hc List.not_mem_nil
  | succ w ih =>
    intro c hc
    rcases List.mem_append.1 hc with hc | hc
    · exact ih _ c hc
    · rw [List.mem_singleton.1 hc]
      exact hdigit _ (Nat.mod_lt _ (by decide))

/-- A field that two numbers fit in, and what follows it. -/
theorem appendInt_lt_iff (hw : 0 < w) (hn : n < 10 ^ w) (hm : m < 10 ^ w) :
    appendInt n w ++ x < appendInt m w ++ y ↔ n < m ∨ (n = m ∧ x < y) := by
  rw [appendInt_natCast hw hn, appendInt_natCast hw hm, field_lt_iff hn hm]

/-- A fraction of no digits comes before every other. -/
theorem appendNano_lt_iff (hn : n < 10 ^ 9) (hm : m < 10 ^ 9) :
    appendNano n ++ utcZone < appendNano m ++ utcZone ↔ n < m := by
  have hzone : utcZone = ' ' :: "+0000 UTC".toList := rfl
  unfold appendNano
  rw [hzone]
  split
  · rename_i h0
    subst h0
    split
    · rename_i h0
      subst h0
      exact iff_of_false (List.lt_irrefl _) (lt_irrefl _)
    · rename_i hpos
      exact iff_of_true (List.cons_lt_cons_iff.2 (.inl (by decide))) (Nat.pos_of_ne_zero hpos)
  · rename_i hpos
    split
    · rename_i h0
      subst h0
      refine iff_of_false (fun h => ?_) (Nat.not_lt_zero _)
      rcases List.cons_lt_cons_iff.1 h with h | ⟨h, -⟩
      · exact absurd h (by decide)
      · exact absurd h (by decide)
    · have hblank : ' ' < '0' := by decide
      have hlen : (digits 9 n).length = (digits 9 m).length := by rw [length_digits, length_digits]
      rw [appendInt_natCast (by decide) hn, appendInt_natCast (by decide) hm, List.cons_append, List.cons_append,
        List.cons_lt_cons_self, trimZeros_lt_iff hblank hlen (digits_ge 9 n) (digits_ge 9 m), digits_lt_iff hn hm]

end Fields

/-! ## Instants -/

section Instants

variable {t t' : Int}

/-- Days come first, then seconds of a day, then nanoseconds. -/
theorem instant_lt_iff : t < t' ↔ daysBefore 1970 + t / 86400000000000 < daysBefore 1970 + t' / 86400000000000 ∨
    (daysBefore 1970 + t / 86400000000000 = daysBefore 1970 + t' / 86400000000000 ∧
      (utcClock t < utcClock t' ∨ (utcClock t = utcClock t' ∧ utcNanos t < utcNanos t'))) := by
  unfold utcClock utcNanos
  omega

theorem clock_lt_iff {c c' : Int} (h : 0 ≤ c) (h' : 0 ≤ c') : c < c' ↔ (c / 3600).toNat < (c' / 3600).toNat ∨
    ((c / 3600).toNat = (c' / 3600).toNat ∧ ((c % 3600 / 60).toNat < (c' % 3600 / 60).toNat ∨
      ((c % 3600 / 60).toNat = (c' % 3600 / 60).toNat ∧ (c % 60).toNat < (c' % 60).toNat))) := by
  omega

/-- The text in the fields it is compared by. -/
theorem utcString_toList (h : 0 ≤ (utcDate t).year) : (utcString t).toList =
    appendInt ((utcDate t).year.toNat : Int) 4 ++ '-' :: (appendInt (utcDate t).month 2 ++ '-' ::
      (appendInt (utcDate t).day 2 ++ ' ' :: (appendInt ((utcClock t / 3600).toNat : Int) 2 ++ ':' ::
        (appendInt ((utcClock t % 3600 / 60).toNat : Int) 2 ++ ':' :: (appendInt ((utcClock t % 60).toNat : Int) 2 ++
          (appendNano (utcNanos t) ++ utcZone)))))) := by
  have hclock : 0 ≤ utcClock t := Int.emod_nonneg _ (by decide)
  rw [Int.toNat_of_nonneg h, Int.toNat_of_nonneg (by omega), Int.toNat_of_nonneg (by omega),
    Int.toNat_of_nonneg (by omega)]
  unfold utcString
  dsimp only
  rw [String.toList_ofList]
  simp only [List.append_assoc, List.cons_append, List.nil_append]

/-- Three comparisons and what comes after them. -/
theorem lex_assoc {a₁ a₂ a₃ e₁ e₂ e₃ r : Prop} :
    (a₁ ∨ (e₁ ∧ (a₂ ∨ (e₂ ∧ (a₃ ∨ (e₃ ∧ r)))))) ↔
    (a₁ ∨ (e₁ ∧ (a₂ ∨ (e₂ ∧ a₃)))) ∨ ((e₁ ∧ e₂ ∧ e₃) ∧ r) := by
  tauto

/-- The texts of two instants compare as the instants do. -/
theorem utcString_lt_iff (h : InYears t) (h' : InYears t') : utcString t < utcString t' ↔ t < t' := by
  unfold InYears at h h'
  have hclock : ∀ t, 0 ≤ utcClock t ∧ utcClock t < 86400 := fun t =>
    ⟨Int.emod_nonneg _ (by decide), Int.emod_lt_of_pos _ (by decide)⟩
  have hnanos : ∀ t, utcNanos t < 10 ^ 9 := fun t => by unfold utcNanos; omega
  have hbounds : ∀ t, (utcDate t).month ≤ 12 ∧ (utcDate t).day ≤ 31 := fun t => date_bounds _
  have htwo : ∀ n, n < 100 → n < 10 ^ 2 := fun n hn => hn
  have hc := hclock t
  have hc' := hclock t'
  have hb := hbounds t
  have hb' := hbounds t'
  have hdate : daysBefore 1970 + t / 86400000000000 = daysBefore 1970 + t' / 86400000000000 ↔
      (utcDate t).year.toNat = (utcDate t').year.toNat ∧ (utcDate t).month = (utcDate t').month ∧
        (utcDate t).day = (utcDate t').day := by
    refine ⟨fun h => ?_, fun ⟨hy, hm, hd⟩ => date_inj (Date.ext (show (utcDate t).year =
      (utcDate t').year by omega) hm hd)⟩
    unfold utcDate
    rw [h]
    exact ⟨rfl, rfl, rfl⟩
  have hyear : (utcDate t).year.toNat < (utcDate t').year.toNat ↔ (utcDate t).year < (utcDate t').year := by omega
  have hyear' : (utcDate t).year.toNat = (utcDate t').year.toNat ↔ (utcDate t).year = (utcDate t').year := by omega
  have hsame : utcClock t = utcClock t' ↔ (utcClock t / 3600).toNat = (utcClock t' / 3600).toNat ∧
      (utcClock t % 3600 / 60).toNat = (utcClock t' % 3600 / 60).toNat ∧
        (utcClock t % 60).toNat = (utcClock t' % 60).toNat := by omega
  rw [String.lt_iff, utcString_toList (by omega), utcString_toList (by omega),
    appendInt_lt_iff (by decide) (show _ < 10000 by omega) (show _ < 10000 by omega), List.cons_lt_cons_self,
    appendInt_lt_iff (by decide) (htwo _ (by omega)) (htwo _ (by omega)), List.cons_lt_cons_self,
    appendInt_lt_iff (by decide) (htwo _ (by omega)) (htwo _ (by omega)), List.cons_lt_cons_self,
    appendInt_lt_iff (by decide) (htwo _ (by omega)) (htwo _ (by omega)), List.cons_lt_cons_self,
    appendInt_lt_iff (by decide) (htwo _ (by omega)) (htwo _ (by omega)), List.cons_lt_cons_self,
    appendInt_lt_iff (by decide) (htwo _ (by omega)) (htwo _ (by omega)), appendNano_lt_iff (hnanos t) (hnanos t'),
    instant_lt_iff, hdate, date_lt_iff, clock_lt_iff hc.1 hc'.1, hsame, lex_assoc]
  refine or_congr ?_ (and_congr_right fun _ => lex_assoc)
  rw [hyear, hyear']
  rfl

end Instants

end Go
