/-
Percent-encoding: a byte that does not stand for itself is a percent sign and two hexadecimal digits.
What was escaped is read back, and so is what follows a byte that is no digit.
-/
import Nixbox.Lib.UrlEncoded

namespace Percent

open UrlEncoded

/-- One byte, as it is or escaped. -/
def escapeByte (plain : UInt8 → Bool) (b : UInt8) : Bytes :=
  if plain b then [b] else [percent, hexDigit (b.toNat / 16), hexDigit (b.toNat % 16)]

/-- Each byte that is not plain, escaped. -/
def escape (plain : UInt8 → Bool) (s : Bytes) : Bytes := s.flatMap (escapeByte plain)

/-- None where a percent sign comes without two digits. -/
def unescape : Bytes → Option Bytes
  | [] => some []
  | b :: rest =>
    if b = percent then
      match rest with
      | x :: y :: rest => do
        let hi ← unhex x
        let lo ← unhex y
        let s ← unescape rest
        return (16 * hi + lo).toUInt8 :: s
      | _ => none
    else do
      let s ← unescape rest
      return b :: s

section RoundTrip

variable {plain : UInt8 → Bool} {b x y : UInt8} {s rest : Bytes}

theorem unescape_percent : unescape (percent :: x :: y :: rest) =
    (unhex x).bind fun hi => (unhex y).bind fun lo => (unescape rest).map fun s => (16 * hi + lo).toUInt8 :: s := by
  rw [unescape, if_pos rfl]
  cases unhex x <;> cases unhex y <;> cases unescape rest <;> rfl

theorem unescape_cons (h : b ≠ percent) : unescape (b :: rest) = (unescape rest).map (b :: ·) := by
  rw [unescape.eq_def]
  dsimp only
  rw [if_neg h]
  cases unescape rest <;> rfl

theorem unescape_escapeByte (h : plain percent = false) :
    unescape (escapeByte plain b ++ rest) = (unescape rest).map (b :: ·) := by
  unfold escapeByte
  split
  · rename_i hb
    have hp : b ≠ percent := fun he => by rw [he, h] at hb; exact nomatch hb
    rw [List.singleton_append, unescape_cons hp]
  · have hlt : b.toNat < 256 := b.toNat_lt
    have hsum : 16 * (b.toNat / 16) + b.toNat % 16 = b.toNat := Nat.div_add_mod ..
    rw [List.cons_append, List.cons_append, List.singleton_append, unescape_percent, unhex_hexDigit _ (by omega),
      unhex_hexDigit _ (by omega), Option.bind_some, Option.bind_some, hsum]
    simp

/-- What was escaped is read back. -/
theorem unescape_escape (h : plain percent = false) : unescape (escape plain s) = some s := by
  induction s with
  | nil => rfl
  | cons b s ih =>
    show unescape (escapeByte plain b ++ escape plain s) = _
    rw [unescape_escapeByte h, ih]
    rfl

/-- What is written of a byte: a plain one, a percent sign or a digit. -/
theorem mem_escape (hb : b ∈ escape plain s) : plain b = true ∨ b = percent ∨ ∃ n < 16, b = hexDigit n := by
  obtain ⟨c, -, hc⟩ := List.mem_flatMap.1 hb
  unfold escapeByte at hc
  split at hc
  · rename_i hplain
    rw [List.mem_singleton.1 hc]
    exact .inl hplain
  · have hlt : c.toNat < 256 := c.toNat_lt
    simp only [List.mem_cons, List.not_mem_nil, or_false] at hc
    rcases hc with rfl | rfl | rfl
    · exact .inr (.inl rfl)
    · exact .inr (.inr ⟨_, by omega, rfl⟩)
    · exact .inr (.inr ⟨_, by omega, rfl⟩)

/-- No escape reaches over a byte that is no digit, so what follows it is read on its own. -/
theorem unescape_suffix (hb : unhex b = none) (h : (unescape (s ++ b :: rest)).isSome) :
    (unescape (b :: rest)).isSome := by
  induction s using unescape.induct with
  | case1 => exact h
  | case2 x y s ih =>
    rw [List.cons_append, List.cons_append, List.cons_append, unescape_percent] at h
    cases hx : unhex x with
    | none => rw [hx] at h; exact nomatch h
    | some hi =>
      cases hy : unhex y with
      | none => rw [hx, hy] at h; exact nomatch h
      | some lo =>
        rw [hx, hy, Option.bind_some, Option.bind_some, Option.isSome_map] at h
        exact ih h
  -- an escape cut short by `b` is refused
  | case3 s hshort =>
    match s, hshort with
    | [], _ =>
      cases rest with
      | nil => exact nomatch h
      | cons y rest =>
        rw [List.cons_append, List.nil_append, unescape_percent, hb] at h
        exact nomatch h
    | [x], _ =>
      rw [List.cons_append, List.cons_append, List.nil_append, unescape_percent, hb] at h
      cases hx : unhex x <;> rw [hx] at h <;> exact nomatch h
    | x :: y :: s, hshort => exact absurd rfl (hshort x y s)
  | case4 c s hp ih =>
    rw [List.cons_append, unescape_cons hp, Option.isSome_map] at h
    exact ih h

/-- No escape reaches over such a byte in what is read either. -/
theorem unescape_append_cons (hb : unhex b = none) (hne : b ≠ percent) : unescape (s ++ b :: rest) =
    (unescape s).bind fun x => (unescape rest).map fun y => x ++ b :: y := by
  induction s using unescape.induct with
  | case1 => rw [List.nil_append, unescape_cons hne]; rfl
  | case2 x y s ih =>
    rw [List.cons_append, List.cons_append, List.cons_append, unescape_percent, unescape_percent, ih]
    cases unhex x <;> cases unhex y <;> cases unescape s <;> cases unescape rest <;> rfl
  | case3 s hshort =>
    match s, hshort with
    | [], _ =>
      cases rest with
      | nil => rfl
      | cons y rest => rw [List.cons_append, List.nil_append, unescape_percent, hb]; rfl
    | [x], _ =>
      rw [List.cons_append, List.cons_append, List.nil_append, unescape_percent, hb]
      cases unhex x <;> rfl
    | x :: y :: s, hshort => exact absurd rfl (hshort x y s)
  | case4 c s hp ih =>
    rw [List.cons_append, unescape_cons hp, unescape_cons hp, ih]
    cases unescape s <;> cases unescape rest <;> rfl

end RoundTrip

end Percent
