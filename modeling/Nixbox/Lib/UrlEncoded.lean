/-
Form-encoded texts: bytes escaped by two hexadecimal digits, pairs of a key and a value joined by
`&`. Which bytes stand for themselves is left open; what was written is read back.
-/
import Mathlib.Tactic.Common

namespace UrlEncoded

/-- A text as bytes. -/
abbrev Bytes := List UInt8

/-- The byte `%`. -/
def percent : UInt8 := 37

/-- The byte `&`. -/
def amp : UInt8 := 38

/-- The byte `+`. -/
def plus : UInt8 := 43

/-- The byte `;`. -/
def semicolon : UInt8 := 59

/-- The byte `=`. -/
def equals : UInt8 := 61

/-- A blank. -/
def blank : UInt8 := 32

/-- A hexadecimal digit, of upper case. -/
def hexDigit (n : Nat) : UInt8 := if n < 10 then 48 + n.toUInt8 else 55 + n.toUInt8

/-- The value of a hexadecimal digit, of either case. -/
def unhex (b : UInt8) : Option Nat :=
  let n := b.toNat
  if 48 ≤ n ∧ n ≤ 57 then some (n - 48)
  else if 65 ≤ n ∧ n ≤ 70 then some (n - 55)
  else if 97 ≤ n ∧ n ≤ 102 then some (n - 87)
  else none

/-- One byte, as it is or escaped. -/
def escapeByte (plain : UInt8 → Bool) (b : UInt8) : Bytes :=
  if plain b then [b]
  else if b = blank then [plus]
  else [percent, hexDigit (b.toNat / 16), hexDigit (b.toNat % 16)]

/-- Each byte that is not plain, escaped, and a blank as a plus. -/
def escape (plain : UInt8 → Bool) (s : Bytes) : Bytes := s.flatMap (escapeByte plain)

/-- A plus is a blank; a percent sign needs two digits. -/
def unescape : Bytes → Option Bytes
  | [] => some []
  | b :: rest =>
    if b = percent then
      match rest with
      | x :: y :: rest => do
        let hi ← unhex x
        let lo ← unhex y
        let s ← unescape rest
        return (16 * hi + lo).toUInt8 :: s
      | _ => none
    else do
      let s ← unescape rest
      return (if b = plus then blank else b) :: s

/-- A name and its value. -/
def encodePair (plain : UInt8 → Bool) (kv : Bytes × Bytes) : Bytes :=
  escape plain kv.1 ++ equals :: escape plain kv.2

/-- The pairs, between ampersands. -/
def encode (plain : UInt8 → Bool) (kvs : List (Bytes × Bytes)) : Bytes :=
  [amp].intercalate (kvs.map (encodePair plain))

/-- A piece between two `&`; a piece that has a semicolon, is empty or is not escaped properly is
none. -/
def decodePair (piece : Bytes) : Option (Bytes × Bytes) :=
  if piece = [] ∨ semicolon ∈ piece then none
  else do
    let key ← unescape (piece.takeWhile (· ≠ equals))
    let value ← unescape ((piece.dropWhile (· ≠ equals)).drop 1)
    return (key, value)

/-- The pairs that can be read. -/
def decode (s : Bytes) : List (Bytes × Bytes) := (s.splitOn amp).filterMap decodePair

/-- None of the bytes that mean something stands for itself. -/
def Safe (plain : UInt8 → Bool) : Prop := ∀ b ∈ [percent, amp, plus, semicolon, equals, blank], plain b = false

/-- A byte of an encoded text: a plain one, one that means something, or a digit. -/
def Written (plain : UInt8 → Bool) (b : UInt8) : Prop :=
  plain b = true ∨ b ∈ [percent, amp, plus, equals] ∨ ∃ n < 16, b = hexDigit n

section RoundTrip

variable {plain : UInt8 → Bool} {b : UInt8} {s rest : Bytes} {kv : Bytes × Bytes} {kvs : List (Bytes × Bytes)}

theorem unhex_hexDigit : ∀ n < 16, unhex (hexDigit n) = some n := by decide

/-- A digit is none of the bytes that mean something. -/
theorem hexDigit_plain : ∀ n < 16, hexDigit n ∉ [percent, amp, plus, semicolon, equals, blank] := by decide

theorem unescape_percent {n m : Nat} (hn : n < 16) (hm : m < 16) :
    unescape (percent :: hexDigit n :: hexDigit m :: rest) =
      (unescape rest).map fun s => (16 * n + m).toUInt8 :: s := by
  rw [unescape, if_pos rfl, unhex_hexDigit n hn, unhex_hexDigit m hm]
  cases unescape rest <;> rfl

theorem unescape_cons (h : b ≠ percent) :
    unescape (b :: rest) = (unescape rest).map fun s => (if b = plus then blank else b) :: s := by
  rw [unescape.eq_def]
  dsimp only
  rw [if_neg h]
  cases unescape rest <;> rfl

theorem unescape_escapeByte (h : Safe plain) :
    unescape (escapeByte plain b ++ rest) = (unescape rest).map (b :: ·) := by
  unfold escapeByte
  split
  · rename_i hb
    have hp : b ≠ percent := fun he => by rw [he, h percent (by simp)] at hb; exact nomatch hb
    have hq : b ≠ plus := fun he => by rw [he, h plus (by simp)] at hb; exact nomatch hb
    rw [List.singleton_append, unescape_cons hp, if_neg hq]
  · split
    · rename_i hb
      rw [List.singleton_append, unescape_cons (by decide), if_pos rfl, hb]
    · have hlt : b.toNat < 256 := b.toNat_lt
      have hsum : 16 * (b.toNat / 16) + b.toNat % 16 = b.toNat := Nat.div_add_mod ..
      rw [List.cons_append, List.cons_append, List.singleton_append, unescape_percent (by omega) (by omega), hsum]
      simp

theorem unescape_escape (h : Safe plain) : unescape (escape plain s) = some s := by
  induction s with
  | nil => rfl
  | cons b s ih =>
    show unescape (escapeByte plain b ++ escape plain s) = _
    rw [unescape_escapeByte h, ih]
    rfl

/-- What is written of a byte: a plain one, a plus, a percent sign or a digit. -/
theorem mem_escape (hb : b ∈ escape plain s) :
    plain b = true ∨ b = plus ∨ b = percent ∨ ∃ n < 16, b = hexDigit n := by
  obtain ⟨c, -, hc⟩ := List.mem_flatMap.1 hb
  unfold escapeByte at hc
  split at hc
  · rename_i hplain
    rw [List.mem_singleton.1 hc]
    exact .inl hplain
  · split at hc
    · exact .inr (.inl (List.mem_singleton.1 hc))
    · have hlt : c.toNat < 256 := c.toNat_lt
      simp only [List.mem_cons, List.not_mem_nil, or_false] at hc
      rcases hc with rfl | rfl | rfl
      · exact .inr (.inr (.inl rfl))
      · exact .inr (.inr (.inr ⟨_, by omega, rfl⟩))
      · exact .inr (.inr (.inr ⟨_, by omega, rfl⟩))

theorem mem_intercalate {α : Type} {sep a : α} {ls : List (List α)} (ha : a ∈ [sep].intercalate ls) :
    a = sep ∨ ∃ l ∈ ls, a ∈ l := by
  induction ls with
  | nil => exact absurd ha List.not_mem_nil
  | cons l ls ih =>
    cases ls with
    | nil => exact .inr ⟨l, List.mem_cons_self .., by simpa using ha⟩
    | cons l' ls =>
      rw [List.intercalate_cons_cons, List.append_assoc, List.mem_append, List.mem_append, List.mem_singleton] at ha
      rcases ha with ha | rfl | ha
      · exact .inr ⟨l, List.mem_cons_self .., ha⟩
      · exact .inl rfl
      · exact (ih ha).imp_right fun ⟨k, hk, hak⟩ => ⟨k, List.mem_cons_of_mem _ hk, hak⟩

theorem mem_encode (hb : b ∈ encode plain kvs) : Written plain b := by
  have hpart : ∀ s : Bytes, b ∈ escape plain s → Written plain b := by
    intro s hs
    rcases mem_escape hs with hplain | rfl | rfl | hdigit
    · exact .inl hplain
    · exact .inr (.inl (by decide))
    · exact .inr (.inl (by decide))
    · exact .inr (.inr hdigit)
  have hpair : ∀ kv : Bytes × Bytes, b ∈ encodePair plain kv → Written plain b := by
    intro kv hkv
    rcases List.mem_append.1 hkv with hkey | hvalue
    · exact hpart _ hkey
    · rcases List.mem_cons.1 hvalue with rfl | hvalue
      · exact .inr (.inl (by decide))
      · exact hpart _ hvalue
  rcases mem_intercalate hb with rfl | ⟨l, hl, hb⟩
  · exact .inr (.inl (by decide))
  · obtain ⟨kv, -, rfl⟩ := List.mem_map.1 hl
    exact hpair kv hb

theorem not_mem_escape (h : Safe plain) (hb : b ∈ [amp, semicolon, equals]) : b ∉ escape plain s := by
  intro hin
  have hall : b ∈ [percent, amp, plus, semicolon, equals, blank] := by
    simp only [List.mem_cons, List.not_mem_nil, or_false] at hb
    rcases hb with rfl | rfl | rfl <;> simp
  rcases mem_escape hin with hplain | rfl | rfl | ⟨n, hn, rfl⟩
  · rw [h b hall] at hplain
    exact nomatch hplain
  · exact absurd hb (by decide)
  · exact absurd hb (by decide)
  · exact hexDigit_plain n hn hall

theorem decodePair_encodePair (h : Safe plain) : decodePair (encodePair plain kv) = some kv := by
  have hkey : ∀ c ∈ escape plain kv.1, decide (c ≠ equals) = true := fun c hc => by
    simpa using ne_of_mem_of_not_mem hc (not_mem_escape h (by simp))
  have hsemi : semicolon ∉ encodePair plain kv := by
    unfold encodePair
    simp only [List.mem_append, List.mem_cons, not_or]
    exact ⟨not_mem_escape h (by simp), by decide, not_mem_escape h (by simp)⟩
  have hne : encodePair plain kv ≠ [] := List.append_ne_nil_of_right_ne_nil _ (List.cons_ne_nil _ _)
  unfold decodePair
  rw [if_neg (not_or.2 ⟨hne, hsemi⟩)]
  unfold encodePair
  rw [List.takeWhile_append_of_pos hkey, List.dropWhile_append_of_pos hkey, List.takeWhile_cons_of_neg (by simp),
    List.dropWhile_cons_of_neg (by simp), List.append_nil, List.drop_one, List.tail_cons, unescape_escape h,
    unescape_escape h]
  rfl

theorem amp_not_mem (h : Safe plain) : amp ∉ encodePair plain kv := by
  unfold encodePair
  simp only [List.mem_append, List.mem_cons, not_or]
  exact ⟨not_mem_escape h (by simp), by decide, not_mem_escape h (by simp)⟩

/-- What was encoded is decoded. -/
theorem decode_encode (h : Safe plain) : decode (encode plain kvs) = kvs := by
  unfold decode encode
  cases kvs with
  | nil => rfl
  | cons kv kvs =>
    have hpieces : ∀ l ∈ (kv :: kvs).map (encodePair plain), amp ∉ l := by
      intro l hl
      obtain ⟨kv', -, rfl⟩ := List.mem_map.1 hl
      exact amp_not_mem h
    rw [List.splitOn_intercalate amp hpieces (by simp), List.filterMap_map]
    have hback : decodePair ∘ encodePair plain = some := funext fun kv => decodePair_encodePair h
    rw [hback, List.filterMap_some]

end RoundTrip

end UrlEncoded
