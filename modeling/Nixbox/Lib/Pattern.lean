/-
Regular expressions, of classes of characters, groups, anchors and bounded repetitions: how their texts
are read, and what they match of a text, between what comes before and what comes after.
-/
import Mathlib.Algebra.Group.Nat.Defs
import Mathlib.Tactic.Common

/-- Classes of characters, sequences, an option and a bounded repetition. -/
inductive Pattern
  | empty
  /-- One character of the ranges. -/
  | cls (ranges : List (Char × Char))
  /-- Where the text begins, and where it ends. -/
  | start
  | stop
  | seq (r s : Pattern)
  | opt (r : Pattern)
  | rep (lo hi : Nat) (r : Pattern)
  deriving DecidableEq, Repr

namespace Pattern

/-! ## What a pattern matches -/

/-- The character is in one of the ranges. -/
def inRanges (ranges : List (Char × Char)) (c : Char) : Bool := ranges.any fun r => r.1 ≤ c && c ≤ r.2

/-- `k` matches one after the other. -/
def times (P : List Char → List Char → List Char → Prop) : Nat → List Char → List Char → List Char → Prop
  | 0, _, m, _ => m = []
  | k + 1, pre, m, post => ∃ a b, m = a ++ b ∧ P pre a (b ++ post) ∧ times P k (pre ++ a) b post

/-- The pattern matches `m` between `pre` and `post`. -/
def Matches : Pattern → List Char → List Char → List Char → Prop
  | empty, _, m, _ => m = []
  | cls ranges, _, m, _ => ∃ c, m = [c] ∧ inRanges ranges c = true
  | start, pre, m, _ => m = [] ∧ pre = []
  | stop, _, m, post => m = [] ∧ post = []
  | seq r s, pre, m, post => ∃ a b, m = a ++ b ∧ r.Matches pre a (b ++ post) ∧ s.Matches (pre ++ a) b post
  | opt r, pre, m, post => m = [] ∨ r.Matches pre m post
  | rep lo hi r, pre, m, post => ∃ k, lo ≤ k ∧ k ≤ hi ∧ times r.Matches k pre m post

/-- Somewhere in the text. -/
def Finds (r : Pattern) (s : List Char) : Prop := ∃ pre m post, s = pre ++ m ++ post ∧ r.Matches pre m post

/-- The whole text. -/
def Covers (r : Pattern) (s : List Char) : Prop := r.Matches [] s []

/-! ## How a pattern is written -/

/-- The characters that stand for something else, in a form that is not read here. -/
def isMeta (c : Char) : Bool := c ∈ ['.', '*', '+', '?', '|', '\\', ']', '\x7b', '\x7d']

/-- The rest of a class, up to its bracket; a dash in front of the bracket is itself. Neither an
exclusion nor an escape is read. -/
def readClass : List Char → Option (List (Char × Char) × List Char)
  | [] => none
  | ']' :: rest => some ([], rest)
  | '^' :: _ | '\\' :: _ | _ :: '-' :: '\\' :: _ => none
  | a :: '-' :: ']' :: rest => some ([(a, a), ('-', '-')], rest)
  | a :: '-' :: b :: rest => (readClass rest).map fun r => ((a, b) :: r.1, r.2)
  | a :: rest => (readClass rest).map fun r => ((a, a) :: r.1, r.2)

/-- A decimal number, and what follows it. -/
def readNat (acc : Nat) : List Char → Nat × List Char
  | [] => (acc, [])
  | c :: rest => if c.isDigit then readNat (10 * acc + (c.toNat - '0'.toNat)) rest else (acc, c :: rest)

/-- What stands behind an item: a question mark, bounds in braces, or nothing. -/
def readCount (r : Pattern) : List Char → Option (Pattern × List Char)
  | '?' :: rest => some (opt r, rest)
  | '\x7b' :: rest =>
    match readNat 0 rest with
    | (lo, ',' :: rest) =>
      match readNat 0 rest with
      | (hi, '\x7d' :: rest) => some (rep lo hi r, rest)
      | _ => none
    | _ => none
  | rest => some (r, rest)

/-- A sequence of items, up to a closing parenthesis or the end. -/
def readSeq : Nat → List Char → Option (Pattern × List Char)
  | 0, _ => none
  | _ + 1, [] => some (empty, [])
  | _ + 1, ')' :: rest => some (empty, ')' :: rest)
  | fuel + 1, '(' :: rest => do
    let (r, rest) ← readSeq fuel rest
    match rest with
    | ')' :: rest =>
      let (r, rest) ← readCount r rest
      let (s, rest) ← readSeq fuel rest
      return (seq r s, rest)
    | _ => none
  | fuel + 1, '[' :: rest => do
    let (ranges, rest) ← readClass rest
    let (r, rest) ← readCount (cls ranges) rest
    let (s, rest) ← readSeq fuel rest
    return (seq r s, rest)
  | fuel + 1, c :: rest => do
    guard !isMeta c
    let item := if c = '^' then start else if c = '$' then stop else cls [(c, c)]
    let (r, rest) ← readCount item rest
    let (s, rest) ← readSeq fuel rest
    return (seq r s, rest)

/-- The pattern a text is read as, if it is one of this kind. -/
def read (s : String) : Option Pattern :=
  match readSeq (s.toList.length + 1) s.toList with
  | some (r, []) => some r
  | _ => none

example : read "^[a-c-]?x$" =
    some (seq start (seq (opt (cls [('a', 'c'), ('-', '-')])) (seq (cls [('x', 'x')]) (seq stop empty)))) := by decide

section Matching

variable {r s : Pattern} {ranges : List (Char × Char)} {pre m post : List Char} {k : Nat}

theorem times_cls : times (cls ranges).Matches k pre m post ↔
    m.length = k ∧ ∀ c ∈ m, inRanges ranges c = true := by
  induction k generalizing pre m with
  | zero =>
    show m = [] ↔ _
    rw [List.length_eq_zero_iff]
    exact ⟨fun h => ⟨h, by rw [h]; exact fun _ hc => absurd hc List.not_mem_nil⟩, fun h => h.1⟩
  | succ k ih =>
    constructor
    · rintro ⟨a, b, rfl, ⟨c, rfl, hc⟩, hb⟩
      obtain ⟨hlen, hall⟩ := ih.1 hb
      exact ⟨congrArg Nat.succ hlen, List.forall_mem_cons.2 ⟨hc, hall⟩⟩
    · rintro ⟨hlen, hall⟩
      cases m with
      | nil => cases hlen
      | cons c m =>
        obtain ⟨hc, hm⟩ := List.forall_mem_cons.1 hall
        exact ⟨[c], m, rfl, ⟨c, rfl, hc⟩, ih.2 ⟨Nat.succ.inj hlen, hm⟩⟩

/-- A bounded repetition of a class. -/
theorem rep_cls {lo hi : Nat} : (rep lo hi (cls ranges)).Matches pre m post ↔
    (lo ≤ m.length ∧ m.length ≤ hi) ∧ ∀ c ∈ m, inRanges ranges c = true := by
  constructor
  · rintro ⟨k, hlo, hhi, hk⟩
    obtain ⟨rfl, hall⟩ := times_cls.1 hk
    exact ⟨⟨hlo, hhi⟩, hall⟩
  · rintro ⟨⟨hlo, hhi⟩, hall⟩
    exact ⟨m.length, hlo, hhi, times_cls.2 ⟨rfl, hall⟩⟩

theorem seq_empty : (seq r empty).Matches pre m post ↔ r.Matches pre m post := by
  constructor
  · rintro ⟨a, b, rfl, ha, rfl⟩
    rwa [List.append_nil]
  · exact fun h => ⟨m, [], (List.append_nil m).symm, h, rfl⟩

/-- `s` is `r` with the end of the text behind it. -/
def Stops (r s : Pattern) : Prop := ∀ pre m post, s.Matches pre m post ↔ post = [] ∧ r.Matches pre m []

theorem stops_empty : Stops empty (seq stop empty) := by
  intro pre m post
  rw [seq_empty]
  exact and_comm

theorem Stops.seq (q : Pattern) (h : Stops r s) : Stops (seq q r) (seq q s) := by
  intro pre m post
  constructor
  · rintro ⟨a, b, rfl, ha, hb⟩
    obtain ⟨rfl, hr⟩ := (h _ _ _).1 hb
    exact ⟨rfl, a, b, rfl, ha, hr⟩
  · rintro ⟨rfl, a, b, rfl, ha, hb⟩
    exact ⟨a, b, rfl, ha, (h _ _ _).2 ⟨rfl, hb⟩⟩

/-- A pattern found between the anchors covers the text. -/
theorem finds_anchored {text : List Char} (h : Stops r s) : Finds (seq start s) text ↔ Covers r text := by
  constructor
  · rintro ⟨pre, m, post, rfl, a, b, rfl, ⟨rfl, rfl⟩, hb⟩
    obtain ⟨rfl, hr⟩ := (h _ _ _).1 hb
    rw [List.nil_append, List.nil_append, List.append_nil]
    exact hr
  · intro hcovers
    exact ⟨[], text, [], (List.append_nil _).symm, [], text, rfl, ⟨rfl, rfl⟩, (h _ _ _).2 ⟨rfl, hcovers⟩⟩

end Matching

end Pattern
