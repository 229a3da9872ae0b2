/-
The proleptic Gregorian calendar: the date of a day by division into cycles of 400, 100, 4 and 1 years,
and that dates come in the order of their days.
-/
import Mathlib.Algebra.Order.Ring.Int
import Mathlib.Data.Nat.Init
import Mathlib.Tactic.Common

namespace Calendar

/-- A leap year of the Gregorian calendar. -/
def isLeap (y : Int) : Bool := y % 4 = 0 ∧ (y % 100 ≠ 0 ∨ y % 400 = 0)

/-- The days of a year. -/
def yearLength (y : Int) : Int := if isLeap y then 366 else 365

/-- The days from the first of January of year 1 to that of year `y`. -/
def daysBefore (y : Int) : Int := 365 * (y - 1) + (y - 1) / 4 - (y - 1) / 100 + (y - 1) / 400

/-- The year of a day, and how many of the year come before it. Cycles begin after a multiple of 400; the
last century of one, and the last year of four, have a day more. -/
def yearDay (d : Int) : Int × Int :=
  let n400 := d / 146097
  let d := d % 146097
  let n100 := min (d / 36524) 3
  let d := d - 36524 * n100
  let n4 := d / 1461
  let d := d - 1461 * n4
  let n1 := min (d / 365) 3
  (400 * n400 + 100 * n100 + 4 * n4 + n1 + 1, d - 365 * n1)

/-- The days before each month of a year without a leap day. -/
def monthStarts : List Nat := [0, 31, 59, 90, 120, 151, 181, 212, 243, 273, 304, 334]

/-- The month and the day of the month, both from 1. -/
def monthDay (leap : Bool) (yday : Nat) : Nat × Nat :=
  if leap && yday == 59 then (2, 29)
  else
    let yday := if leap && 59 < yday then yday - 1 else yday
    let month := (monthStarts.takeWhile (· ≤ yday)).length
    (month, yday - monthStarts.getD (month - 1) 0 + 1)

/-- A day by its year, month and day of the month. -/
@[ext] structure Date where
  year : Int
  month : Nat
  day : Nat
  deriving DecidableEq, Repr

/-- The date of a day, counted from the first of January of year 1. -/
def date (d : Int) : Date :=
  let (year, yday) := yearDay d
  let (month, day) := monthDay (isLeap year) yday.toNat
  ⟨year, month, day⟩

example : date (daysBefore 1970) = ⟨1970, 1, 1⟩ ∧ date (daysBefore 2024 + 59) = ⟨2024, 2, 29⟩ ∧
    date (daysBefore 2025 - 1) = ⟨2024, 12, 31⟩ := by decide

section Years

variable {d d' y y' : Int}

theorem yearLength_cases (y : Int) :
    yearLength y = if y % 4 = 0 ∧ (y % 100 ≠ 0 ∨ y % 400 = 0) then 366 else 365 := by
  unfold yearLength isLeap
  simp only [decide_eq_true_eq]

theorem daysBefore_succ (y : Int) : daysBefore (y + 1) = daysBefore y + yearLength y := by
  rw [yearLength_cases]
  unfold daysBefore
  split <;> omega

theorem daysBefore_mono (h : y ≤ y') : daysBefore y ≤ daysBefore y' := by
  unfold daysBefore
  omega

/-- The counts of cycles a day is divided into, and what is left. -/
theorem yearDay_cycles (d : Int) :
    ∃ n400 n100 n4 n1 yday, yearDay d = (400 * n400 + 100 * n100 + 4 * n4 + n1 + 1, yday) ∧
    d = 146097 * n400 + 36524 * n100 + 1461 * n4 + 365 * n1 + yday ∧
      (0 ≤ n100 ∧ n100 ≤ 3) ∧ (0 ≤ n4 ∧ n4 ≤ 24) ∧ (0 ≤ n1 ∧ n1 ≤ 3) ∧ 0 ≤ yday ∧
        (yday < 365 ∨ (yday = 365 ∧ n1 = 3 ∧ (n4 < 24 ∨ n100 = 3))) := by
  have hd : 146097 * (d / 146097) + d % 146097 = d := Int.mul_ediv_add_emod ..
  have hr : 0 ≤ d % 146097 ∧ d % 146097 < 146097 :=
    ⟨Int.emod_nonneg _ (by decide), Int.emod_lt_of_pos _ (by decide)⟩
  unfold yearDay
  dsimp only
  generalize d / 146097 = n400 at hd ⊢
  generalize d % 146097 = r at hd hr ⊢
  refine ⟨n400, _, _, _, _, rfl, ?_⟩
  have h100 : 0 ≤ min (r / 36524) 3 ∧ min (r / 36524) 3 ≤ 3 ∧ 36524 * min (r / 36524) 3 ≤ r ∧
      (min (r / 36524) 3 < 3 → r < 36524 * min (r / 36524) 3 + 36524) := by omega
  generalize min (r / 36524) 3 = n100 at h100 ⊢
  generalize hr4 : r - 36524 * n100 = r4
  have h4 : 0 ≤ r4 / 1461 ∧ 1461 * (r4 / 1461) ≤ r4 ∧ r4 < 1461 * (r4 / 1461) + 1461 := by omega
  generalize r4 / 1461 = n4 at h4 ⊢
  generalize hr1 : r4 - 1461 * n4 = r1
  have h1 : 0 ≤ min (r1 / 365) 3 ∧ min (r1 / 365) 3 ≤ 3 ∧ 365 * min (r1 / 365) 3 ≤ r1 ∧
      (min (r1 / 365) 3 < 3 → r1 < 365 * min (r1 / 365) 3 + 365) := by omega
  generalize min (r1 / 365) 3 = n1 at h1 ⊢
  omega

/-- The day is in its year. -/
theorem yearDay_spec (d : Int) : d = daysBefore (yearDay d).1 + (yearDay d).2 ∧ 0 ≤ (yearDay d).2 ∧
    (yearDay d).2 < yearLength (yearDay d).1 := by
  obtain ⟨n400, n100, n4, n1, yday, heq, hd, h100, h4, h1, hyday, hlast⟩ := yearDay_cycles d
  rw [heq, yearLength_cases]
  unfold daysBefore
  dsimp only
  refine ⟨?_, hyday, ?_⟩
  · omega
  · split <;> omega

/-- Years come first, and days of one year in their order. -/
theorem yearDay_lt_iff : d < d' ↔ (yearDay d).1 < (yearDay d').1 ∨
    ((yearDay d).1 = (yearDay d').1 ∧ (yearDay d).2 < (yearDay d').2) := by
  have hlater : ∀ d d', (yearDay d).1 < (yearDay d').1 → d < d' := by
    intro d d' h
    obtain ⟨hd, -, hlen⟩ := yearDay_spec d
    obtain ⟨hd', hpos, -⟩ := yearDay_spec d'
    have hnext := daysBefore_succ (yearDay d).1
    have hmono := daysBefore_mono (show (yearDay d).1 + 1 ≤ (yearDay d').1 from h)
    omega
  have hsame : ∀ y, (yearDay d).1 = y → (yearDay d').1 = y → (d < d' ↔ (yearDay d).2 < (yearDay d').2) := by
    intro y hy hy'
    have hd := (yearDay_spec d).1
    have hd' := (yearDay_spec d').1
    rw [hy] at hd
    rw [hy'] at hd'
    omega
  rcases lt_trichotomy (yearDay d).1 (yearDay d').1 with h | h | h
  · exact iff_of_true (hlater _ _ h) (.inl h)
  · rw [hsame _ rfl h.symm]
    exact ⟨fun hlt => .inr ⟨h, hlt⟩, fun hlt => hlt.elim (fun hne =>
      absurd hne (by rw [h]; exact lt_irrefl _)) (·.2)⟩
  · exact iff_of_false (not_lt.2 (hlater _ _ h).le) fun hlt => hlt.elim (fun hlt => lt_asymm h hlt) fun hlt =>
      absurd hlt.1 h.ne'

end Years

section Months

variable {leap : Bool} {n n' : Nat}

/-- A month and a day in one number. -/
def monthKey (leap : Bool) (n : Nat) : Nat := 32 * (monthDay leap n).1 + (monthDay leap n).2

/-- The days of a year. -/
def days (leap : Bool) : Nat := if leap then 366 else 365

theorem monthDay_bounds : ∀ leap, ∀ n < days leap, (monthDay leap n).1 ≤ 12 ∧ (monthDay leap n).2 ≤ 31 := by
  decide +kernel

theorem monthKey_succ : ∀ leap, ∀ n < days leap, n + 1 < days leap → monthKey leap n < monthKey leap (n + 1) := by
  decide +kernel

theorem monthKey_lt (hn : n < n') (hn' : n' < days leap) : monthKey leap n < monthKey leap n' := by
  induction n', hn using Nat.le_induction with
  | base => exact monthKey_succ leap n (Nat.lt_of_succ_lt hn') hn'
  | succ m _ ih => exact (ih (Nat.lt_of_succ_lt hn')).trans (monthKey_succ leap m (Nat.lt_of_succ_lt hn') hn')

/-- Months come first, and days of one month in their order. -/
theorem monthDay_lt_iff (hn : n < days leap) (hn' : n' < days leap) : n < n' ↔
    (monthDay leap n).1 < (monthDay leap n').1 ∨
      ((monthDay leap n).1 = (monthDay leap n').1 ∧ (monthDay leap n).2 < (monthDay leap n').2) := by
  have hkey : n < n' ↔ monthKey leap n < monthKey leap n' := by
    refine ⟨fun h => monthKey_lt h hn', fun h => ?_⟩
    by_contra hle
    rcases Nat.lt_or_eq_of_le (Nat.le_of_not_lt hle) with hlt | rfl
    · exact lt_asymm h (monthKey_lt hlt hn)
    · exact absurd h (lt_irrefl _)
  have hbound := monthDay_bounds leap n hn
  have hbound' := monthDay_bounds leap n' hn'
  rw [hkey]
  unfold monthKey
  omega

end Months

section Dates

variable {d d' : Int}

/-- The day of the year is one of a year of that length. -/
theorem yday_lt (d : Int) : (yearDay d).2.toNat < days (isLeap (yearDay d).1) := by
  obtain ⟨-, hpos, hlen⟩ := yearDay_spec d
  unfold yearLength at hlen
  unfold days
  split at hlen
  · rename_i hleap
    rw [if_pos hleap]
    omega
  · rename_i hleap
    rw [if_neg hleap]
    omega

theorem date_bounds (d : Int) : (date d).month ≤ 12 ∧ (date d).day ≤ 31 := monthDay_bounds _ _ (yday_lt d)

/-- Dates come in the order of their days. -/
theorem date_lt_iff : d < d' ↔ (date d).year < (date d').year ∨ ((date d).year = (date d').year ∧
    ((date d).month < (date d').month ∨ ((date d).month = (date d').month ∧ (date d).day < (date d').day))) := by
  rw [yearDay_lt_iff]
  refine or_congr_right (and_congr_right fun hyear => ?_)
  have hpos := (yearDay_spec d).2.1
  have hpos' := (yearDay_spec d').2.1
  have hlt := yday_lt d
  have hlt' := yday_lt d'
  have hnat : (yearDay d).2 < (yearDay d').2 ↔ (yearDay d).2.toNat < (yearDay d').2.toNat := by omega
  have hmonth : (date d).month = (monthDay (isLeap (yearDay d).1) (yearDay d).2.toNat).1 := rfl
  have hday : (date d).day = (monthDay (isLeap (yearDay d).1) (yearDay d).2.toNat).2 := rfl
  have hyear : (yearDay d).1 = (yearDay d').1 := hyear
  rw [hyear] at hlt hmonth hday
  rw [hnat, monthDay_lt_iff hlt hlt', hmonth, hday]
  rfl

theorem date_inj (h : date d = date d') : d = d' := by
  have hlt : ∀ e e', date e = date e' → ¬ e < e' := by
    intro e e' h hlt
    rw [date_lt_iff, h] at hlt
    rcases hlt with hlt | ⟨-, hlt | ⟨-, hlt⟩⟩ <;> exact lt_irrefl _ hlt
  exact le_antisymm (not_lt.1 (hlt d' d h.symm)) (not_lt.1 (hlt d d' h))

end Dates

end Calendar
