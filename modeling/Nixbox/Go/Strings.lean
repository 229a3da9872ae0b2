/-
The functions of Go's `strings`, `strconv` and `unicode` packages the program calls, on strings
as sequences of code points.
-/
import Mathlib.Algebra.Group.Int.Defs
import Mathlib.Tactic.Common

namespace Go

/-- `unicode.IsSpace`. -/
def isSpace (c : Char) : Bool :=
  c.toNat ∈ [0x09, 0x0a, 0x0b, 0x0c, 0x0d, 0x20, 0x85, 0xa0, 0x1680, 0x2028, 0x2029, 0x202f, 0x205f, 0x3000]
    || (0x2000 ≤ c.toNat && c.toNat ≤ 0x200a)

/-- `strings.TrimSpace`. -/
def trimSpace (s : String) : String :=
  String.ofList (((s.toList.dropWhile isSpace).reverse.dropWhile isSpace).reverse)

/-- `strings.HasPrefix`. -/
def hasPrefix (s start : String) : Bool := start.toList.isPrefixOf s.toList

/-- `strings.HasSuffix`. -/
def hasSuffix (s suffix : String) : Bool := suffix.toList.isSuffixOf s.toList

/-- `strings.ContainsFunc`. -/
def containsFunc (s : String) (f : Char → Bool) : Bool := s.toList.any f

/-- `strings.ReplaceAll(s, "\r\n", "\n")` on code points. -/
def dropCR : List Char → List Char
  | '\r' :: '\n' :: cs => '\n' :: dropCR cs
  | c :: cs => c :: dropCR cs
  | [] => []

/-- `strings.ReplaceAll` of CRLF by LF. -/
def replaceCRLF (s : String) : String := String.ofList (dropCR s.toList)

/-- The fields of `cs` after `cur`, the characters of an open field read so far, last first. -/
def fieldsFrom (cur : List Char) : List Char → List String
  | [] => if cur = [] then [] else [String.ofList cur.reverse]
  | c :: cs =>
    if isSpace c then
      if cur = [] then fieldsFrom [] cs else String.ofList cur.reverse :: fieldsFrom [] cs
    else fieldsFrom (c :: cur) cs

/-- `strings.Fields`. -/
def fields (s : String) : List String := fieldsFrom [] s.toList

/-- `strings.Cut` at a single character: the parts before and after its first occurrence. -/
def cut (s : String) (sep : Char) : Option (String × String) :=
  match s.toList.dropWhile (· ≠ sep) with
  | [] => none
  | _ :: rest => some (String.ofList (s.toList.takeWhile (· ≠ sep)), String.ofList rest)

/-- A string is cut at the first separator. -/
theorem cut_append {s t : String} {sep : Char} (h : sep ∉ s.toList) :
    cut (s ++ String.singleton sep ++ t) sep = some (s, t) := by
  have hpass : ∀ c ∈ s.toList, (decide (c ≠ sep)) = true := by
    intro c hc
    simpa using fun heq : c = sep => h (heq ▸ hc)
  have hlist : (s ++ String.singleton sep ++ t).toList = s.toList ++ sep :: t.toList := by simp
  unfold cut
  rw [hlist, List.dropWhile_append_of_pos hpass, List.takeWhile_append_of_pos hpass,
    List.dropWhile_cons_of_neg (by simp), List.takeWhile_cons_of_neg (by simp)]
  simp

theorem cut_eq_some {s a b : String} {sep : Char} (h : cut s sep = some (a, b)) :
    s = a ++ String.singleton sep ++ b := by
  unfold cut at h
  split at h
  · exact nomatch h
  · rename_i c rest hdrop
    cases h
    have hc : c = sep := by
      have hhead := List.head?_dropWhile_not (fun c => decide (c ≠ sep)) s.toList
      rw [hdrop] at hhead
      simpa using hhead
    have hsplit := List.takeWhile_append_dropWhile (p := fun c => decide (c ≠ sep)) (l := s.toList)
    rw [hdrop, hc] at hsplit
    apply String.toList_injective
    simpa using hsplit.symm

/-- The value of a string of decimal digits after the digits of `acc`. -/
def parseDigits (acc : Nat) : List Char → Option Nat
  | [] => some acc
  | c :: cs => if '0' ≤ c ∧ c ≤ '9' then parseDigits (10 * acc + (c.toNat - '0'.toNat)) cs else none

/-- `strconv.ParseInt(s, 10, 64)`, and `strconv.Atoi` on a 64-bit machine: an optional sign and at
least one digit, in the range of an `int64`. -/
def parseInt (s : String) : Option Int :=
  let signed (neg : Bool) (cs : List Char) : Option Int := do
    if cs = [] then none
    let n ← parseDigits 0 cs
    let v : Int := if neg then -n else n
    if -2 ^ 63 ≤ v ∧ v < 2 ^ 63 then some v else none
  match s.toList with
  | '-' :: cs => signed true cs
  | '+' :: cs => signed false cs
  | cs => signed false cs

/-- A decimal integer: a sign or none, and at least one digit. -/
def IsDecimal (s : String) (n : Int) : Prop :=
  ∃ cs : List Char, cs ≠ [] ∧ (∀ c ∈ cs, c.isDigit = true) ∧
    ((s.toList = cs ∨ s.toList = '+' :: cs) ∧ n = Nat.ofDigitChars 10 cs 0 ∨
      s.toList = '-' :: cs ∧ n = -(Nat.ofDigitChars 10 cs 0 : Int))

section Decimals

variable {s : String} {n : Int} {cs : List Char}

theorem isDigit_iff {c : Char} : c.isDigit = true ↔ '0' ≤ c ∧ c ≤ '9' := by
  unfold Char.isDigit
  rw [Bool.and_eq_true, decide_eq_true_eq, decide_eq_true_eq]
  rfl

/-- A list of digits and nothing else has a value. -/
theorem parseDigits_eq_some {acc m : Nat} : parseDigits acc cs = some m ↔
    (∀ c ∈ cs, c.isDigit = true) ∧ Nat.ofDigitChars 10 cs acc = m := by
  induction cs generalizing acc with
  | nil => simp [parseDigits]
  | cons c cs ih =>
    unfold parseDigits
    rw [Nat.ofDigitChars_cons, List.forall_mem_cons, isDigit_iff]
    split
    · rename_i h
      rw [ih]
      simp [h]
    · rename_i h
      simp [h]

/-- Digits as `parseInt` takes them once it knows the sign. -/
theorem digits_eq_some {value : Nat → Int} :
    (if cs = [] then none >>= fun _ : PUnit => (parseDigits 0 cs).bind fun m =>
        if -2 ^ 63 ≤ value m ∧ value m < 2 ^ 63 then some (value m) else none
      else (parseDigits 0 cs).bind fun m =>
        if -2 ^ 63 ≤ value m ∧ value m < 2 ^ 63 then some (value m) else none) = some n ↔
    (cs ≠ [] ∧ (∀ c ∈ cs, c.isDigit = true) ∧ n = value (Nat.ofDigitChars 10 cs 0)) ∧
    -2 ^ 63 ≤ n ∧ n < 2 ^ 63 := by
  split
  · rename_i h
    simp [h]
  · rename_i h
    rw [Option.bind_eq_some_iff]
    constructor
    · rintro ⟨m, hm, hn⟩
      obtain ⟨hdigits, rfl⟩ := parseDigits_eq_some.1 hm
      split at hn
      · rename_i hrange
        cases hn
        exact ⟨⟨h, hdigits, rfl⟩, hrange⟩
      · cases hn
    · rintro ⟨⟨-, hdigits, rfl⟩, hrange⟩
      exact ⟨_, parseDigits_eq_some.2 ⟨hdigits, rfl⟩, if_pos hrange⟩

/-- After a character that is no digit, a sign, come the digits. -/
theorem isDecimal_signed {c : Char} (hc : c.isDigit = false) (hs : s.toList = c :: cs) : IsDecimal s n ↔
    cs ≠ [] ∧ (∀ d ∈ cs, d.isDigit = true) ∧
      (c = '+' ∧ n = Nat.ofDigitChars 10 cs 0 ∨ c = '-' ∧ n = -(Nat.ofDigitChars 10 cs 0 : Int)) := by
  constructor
  · rintro ⟨ds, hne, hdigits, ⟨h | h, hn⟩ | ⟨h, hn⟩⟩
    · rw [hs] at h
      rw [hdigits c (h ▸ .head _)] at hc
      cases hc
    · rw [hs] at h
      cases h
      exact ⟨hne, hdigits, .inl ⟨rfl, hn⟩⟩
    · rw [hs] at h
      cases h
      exact ⟨hne, hdigits, .inr ⟨rfl, hn⟩⟩
  · rintro ⟨hne, hdigits, ⟨rfl, hn⟩ | ⟨rfl, hn⟩⟩
    · exact ⟨cs, hne, hdigits, .inl ⟨.inr hs, hn⟩⟩
    · exact ⟨cs, hne, hdigits, .inr ⟨hs, hn⟩⟩

theorem isDecimal_minus (hs : s.toList = '-' :: cs) : IsDecimal s n ↔
    cs ≠ [] ∧ (∀ c ∈ cs, c.isDigit = true) ∧ n = -(Nat.ofDigitChars 10 cs 0 : Int) := by
  simpa using isDecimal_signed (by decide) hs

theorem isDecimal_plus (hs : s.toList = '+' :: cs) : IsDecimal s n ↔
    cs ≠ [] ∧ (∀ c ∈ cs, c.isDigit = true) ∧ n = Nat.ofDigitChars 10 cs 0 := by
  simpa using isDecimal_signed (by decide) hs

theorem isDecimal_bare (hminus : ∀ ds, s.toList ≠ '-' :: ds) (hplus : ∀ ds, s.toList ≠ '+' :: ds) :
    IsDecimal s n ↔
      s.toList ≠ [] ∧ (∀ c ∈ s.toList, c.isDigit = true) ∧ n = Nat.ofDigitChars 10 s.toList 0 := by
  constructor
  · rintro ⟨ds, hne, hdigits, ⟨h | h, hn⟩ | ⟨h, -⟩⟩
    · rw [h]
      exact ⟨hne, hdigits, hn⟩
    · exact absurd h (hplus ds)
    · exact absurd h (hminus ds)
  · rintro ⟨hne, hdigits, hn⟩
    exact ⟨s.toList, hne, hdigits, .inl ⟨.inl rfl, hn⟩⟩

theorem parseInt_eq_some : parseInt s = some n ↔ IsDecimal s n ∧ -2 ^ 63 ≤ n ∧ n < 2 ^ 63 := by
  unfold parseInt
  dsimp only
  split
  · rename_i cs hs
    rw [isDecimal_minus hs]
    exact digits_eq_some
  · rename_i cs hs
    rw [isDecimal_plus hs]
    exact digits_eq_some
  · rename_i hminus hplus
    rw [isDecimal_bare hminus hplus]
    exact digits_eq_some

theorem isDecimal_toString (m : Nat) : IsDecimal (toString m) m := by
  have hlist : (toString m).toList = Nat.toDigits 10 m := Nat.toList_repr
  refine ⟨Nat.toDigits 10 m, Nat.toDigits_ne_nil, ?_, .inl ⟨.inl hlist, ?_⟩⟩
  · intro c hc
    exact Nat.isDigit_of_mem_toDigits (by decide) (by decide) hc
  · rw [Nat.ofDigitChars_ten_toDigits]

end Decimals

/-! ## Blanks -/

section Blanks

variable {s : String} {cur cs rest : List Char}

/-- The graphic characters of ASCII are no blanks. -/
theorem isSpace_of_graphic {c : Char} (hlo : 0x21 ≤ c.toNat) (hhi : c.toNat ≤ 0x7e) : isSpace c = false := by
  unfold isSpace
  generalize c.toNat = n at hlo hhi
  rw [Bool.or_eq_false_iff]
  constructor
  · simp
    omega
  · simp
    omega

theorem isSpace_of_isDigit {c : Char} (h : c.isDigit = true) : isSpace c = false := by
  have hrange : 48 ≤ c.toNat ∧ c.toNat ≤ 57 := by
    obtain ⟨hlo, hhi⟩ := isDigit_iff.1 h
    exact ⟨hlo, hhi⟩
  exact isSpace_of_graphic (by omega) (by omega)

theorem dropWhile_isSpace (h : ∀ c ∈ cs, isSpace c = false) : cs.dropWhile isSpace = cs := by
  cases cs with
  | nil => rfl
  | cons c cs => rw [List.dropWhile_cons_of_neg (by simp [h c (.head _)])]

/-- There is nothing to trim. -/
theorem trimSpace_eq_self (h : ∀ c ∈ s.toList, isSpace c = false) : trimSpace s = s := by
  unfold trimSpace
  rw [dropWhile_isSpace h, dropWhile_isSpace fun c hc => h c (List.mem_reverse.1 hc), List.reverse_reverse,
    String.ofList_toList]

/-- A field goes on while there is no blank. -/
theorem fieldsFrom_append (h : ∀ c ∈ cs, isSpace c = false) :
    fieldsFrom cur (cs ++ rest) = fieldsFrom (cs.reverse ++ cur) rest := by
  induction cs generalizing cur with
  | nil => rfl
  | cons c cs ih =>
    rw [List.cons_append, fieldsFrom, if_neg (by simp [h c (.head _)]), ih fun d hd => h d (.tail _ hd)]
    simp

/-- A token without blanks, which is a field where blanks surround it. -/
def IsToken (s : String) : Prop := s.toList ≠ [] ∧ ∀ c ∈ s.toList, isSpace c = false

theorem fields_token (h : IsToken s) : fields s = [s] := by
  have hread : fieldsFrom [] (s.toList ++ []) = _ := fieldsFrom_append h.2
  rw [List.append_nil] at hread
  unfold fields
  rw [hread, List.append_nil, fieldsFrom, if_neg (by simpa using h.1)]
  simp

theorem fields_token_append (h : IsToken s) (t : String) : fields (s ++ " " ++ t) = s :: fields t := by
  have hlist : (s ++ " " ++ t).toList = s.toList ++ ' ' :: t.toList := by simp
  have hspace : isSpace ' ' = true := by decide
  unfold fields
  rw [hlist, fieldsFrom_append h.2, List.append_nil, fieldsFrom, if_pos hspace, if_neg (by simpa using h.1)]
  simp

/-- Tokens joined by blanks are the fields. -/
theorem fields_intercalate {toks : List String} (h : ∀ t ∈ toks, IsToken t) :
    fields (" ".intercalate toks) = toks := by
  induction toks with
  | nil => rfl
  | cons t toks ih =>
    have ht := h t (.head _)
    cases toks with
    | nil => rw [String.intercalate_singleton, fields_token ht]
    | cons u toks =>
      rw [String.intercalate_cons_cons, fields_token_append ht, ih fun v hv => h v (.tail _ hv)]

end Blanks

example : parseInt "8080" = some 8080 ∧ parseInt "-7" = some (-7) ∧ parseInt "0x1f" = none := by decide

end Go
