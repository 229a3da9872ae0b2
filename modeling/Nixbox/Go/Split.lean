/-
Splitting and trimming of texts in blocks of lines: `strings.Split` at a separator of any length,
which gives back the parts that were joined if none of them makes the separator begin early.
-/
import Mathlib.Algebra.Group.Nat.Defs
import Nixbox.Go.Strings

namespace Go

/-- The parts of `cs` at the separator, `cur` read of the present one and the next `skip`
characters belonging to a separator. -/
def splitFrom (sep cur : List Char) (skip : Nat) : List Char → List String
  | [] => [String.ofList cur]
  | c :: cs =>
    match skip with
    | n + 1 => splitFrom sep cur n cs
    | 0 =>
      if sep.isPrefixOf (c :: cs) then String.ofList cur :: splitFrom sep [] (sep.length - 1) cs
      else splitFrom sep (cur ++ [c]) 0 cs

/-- `strings.Split` at a separator that is not empty. -/
def split (s sep : String) : List String := splitFrom sep.toList [] 0 s.toList

/-- `strconv.ParseUint` in base 10, to 64 bits. -/
def parseUint (s : String) : Option Nat :=
  match s.toList with
  | [] => none
  | cs => (parseDigits 0 cs).filter (· < 2 ^ 64)

/-! ## Joined parts -/

section Split

variable {sep cur cs p rest : List Char} {l : List Char} {skip : Nat}

/-- Before the separator that ends `p` there is none in it. -/
def Solid (sep : List Char) : List Char → Prop
  | [] => True
  | c :: p => ¬sep <+: c :: (p ++ sep) ∧ Solid sep p

theorem splitFrom_skip (h : cs.length = skip) : splitFrom sep cur skip (cs ++ rest) = splitFrom sep cur 0 rest := by
  induction cs generalizing skip with
  | nil =>
    subst h
    rfl
  | cons c cs ih =>
    subst h
    exact ih rfl

/-- A part is read up to its separator. -/
theorem splitFrom_append (hsep : sep ≠ []) (h : Solid sep p) :
    splitFrom sep cur 0 (p ++ (sep ++ rest)) = String.ofList (cur ++ p) :: splitFrom sep [] 0 rest := by
  induction p generalizing cur with
  | nil =>
    obtain ⟨d, ds, rfl⟩ := List.exists_cons_of_ne_nil hsep
    have hpre : (d :: ds).isPrefixOf (d :: (ds ++ rest)) = true :=
      List.isPrefixOf_iff_prefix.2 (List.prefix_append (d :: ds) rest)
    rw [List.nil_append, List.cons_append, splitFrom, if_pos hpre, splitFrom_skip (by simp), List.append_nil]
  | cons c p ih =>
    have hpre : ¬sep.isPrefixOf (c :: (p ++ (sep ++ rest))) = true := by
      rw [List.isPrefixOf_iff_prefix]
      intro hin
      have hlong : c :: (p ++ sep) <+: c :: (p ++ (sep ++ rest)) := ⟨rest, by simp⟩
      exact h.1 (List.prefix_of_prefix_length_le hin hlong (by simp; omega))
    rw [List.cons_append, splitFrom, if_neg hpre, ih h.2, List.append_assoc, List.singleton_append]

theorem splitFrom_solid (h : Solid sep p) : splitFrom sep cur 0 p = [String.ofList (cur ++ p)] := by
  induction p generalizing cur with
  | nil => rw [List.append_nil, splitFrom]
  | cons c p ih =>
    have hpre : ¬sep.isPrefixOf (c :: p) = true := by
      rw [List.isPrefixOf_iff_prefix]
      exact fun hin => h.1 (hin.trans ⟨sep, rfl⟩)
    rw [splitFrom, if_neg hpre, ih h.2, List.append_assoc, List.singleton_append]

/-- Splitting undoes joining. -/
theorem split_intercalate {sep : String} {ps : List String} (hsep : sep.toList ≠ []) (hne : ps ≠ [])
    (h : ∀ p ∈ ps, Solid sep.toList p.toList) : split (sep.intercalate ps) sep = ps := by
  induction ps with
  | nil => exact absurd rfl hne
  | cons p ps ih =>
    obtain ⟨hp, hps⟩ := List.forall_mem_cons.1 h
    unfold split at ih ⊢
    cases ps with
    | nil => rw [String.intercalate_singleton, splitFrom_solid hp, List.nil_append, String.ofList_toList]
    | cons q ps =>
      have hlist : (sep.intercalate (p :: q :: ps)).toList =
          p.toList ++ (sep.toList ++ (sep.intercalate (q :: ps)).toList) := by
        rw [String.intercalate_cons_cons, String.toList_append, String.toList_append, List.append_assoc]
      rw [hlist, splitFrom_append hsep hp, ih (by simp) hps, List.nil_append, String.ofList_toList]

/-! ## Lines and blocks of lines -/

theorem solid_newline (h : '\n' ∉ l) : Solid ['\n'] l := by
  induction l with
  | nil => trivial
  | cons c l ih =>
    obtain ⟨hc, hl⟩ := not_or.1 (mt List.mem_cons.2 h)
    refine ⟨fun hpre => hc ?_, ih hl⟩
    simpa using List.cons_prefix_cons.1 hpre

theorem solid_blank_append (h : '\n' ∉ l) (hrest : Solid ['\n', '\n'] rest) : Solid ['\n', '\n'] (l ++ rest) := by
  induction l with
  | nil => exact hrest
  | cons c l ih =>
    obtain ⟨hc, hl⟩ := not_or.1 (mt List.mem_cons.2 h)
    refine ⟨fun hpre => hc ?_, ih hl⟩
    exact (List.cons_prefix_cons.1 hpre).1

/-- What is joined begins with the first part. -/
theorem intercalate_cons_toList (sep p : String) (ps : List String) :
    ∃ cs, (sep.intercalate (p :: ps)).toList = p.toList ++ cs := by
  cases ps with
  | nil => exact ⟨[], by rw [String.intercalate_singleton, List.append_nil]⟩
  | cons q ps =>
    refine ⟨sep.toList ++ (sep.intercalate (q :: ps)).toList, ?_⟩
    rw [String.intercalate_cons_cons, String.toList_append, String.toList_append, List.append_assoc]

/-- What is joined ends with the last part. -/
theorem intercalate_concat_toList (sep p : String) (ps : List String) :
    ∃ cs, (sep.intercalate (ps ++ [p])).toList = cs ++ p.toList := by
  induction ps with
  | nil => exact ⟨[], by rw [List.nil_append, String.intercalate_singleton, List.nil_append]⟩
  | cons q ps ih =>
    obtain ⟨cs, hcs⟩ := ih
    obtain ⟨r, rs, hrs⟩ :=
      List.exists_cons_of_ne_nil (List.append_ne_nil_of_right_ne_nil ps (List.cons_ne_nil p []))
    refine ⟨q.toList ++ (sep.toList ++ cs), ?_⟩
    rw [List.cons_append, hrs, String.intercalate_cons_cons, String.toList_append, String.toList_append, ← hrs, hcs]
    simp

/-- A block of lines that are not empty has no blank line in it. -/
theorem solid_block {ls : List String} (h : ∀ l ∈ ls, '\n' ∉ l.toList ∧ l.toList ≠ []) :
    Solid ['\n', '\n'] ("\n".intercalate ls).toList := by
  induction ls with
  | nil => trivial
  | cons l ls ih =>
    obtain ⟨⟨hl, -⟩, hls⟩ := List.forall_mem_cons.1 h
    cases ls with
    | nil =>
      rw [String.intercalate_singleton, ← List.append_nil l.toList]
      exact solid_blank_append hl trivial
    | cons m ls =>
      obtain ⟨⟨hm, hne⟩, -⟩ := List.forall_mem_cons.1 hls
      rw [String.intercalate_cons_cons, String.toList_append, String.toList_append, List.append_assoc]
      refine solid_blank_append hl ⟨fun hpre => ?_, ih hls⟩
      -- the line feed is followed by a character of the next line
      obtain ⟨cs, hcs⟩ := intercalate_cons_toList "\n" m ls
      obtain ⟨d, ds, hd⟩ := List.exists_cons_of_ne_nil hne
      rw [hcs, hd] at hpre
      have hdm : d ∈ m.toList := hd ▸ List.mem_cons_self
      have heq : '\n' = d := (List.cons_prefix_cons.1 (List.cons_prefix_cons.1 hpre).2).1
      exact hm (heq ▸ hdm)

/-! ## Trimming -/

/-- The text begins and ends with a character that is not blank. -/
structure Trimmed (s : String) : Prop where
  first : ∃ c cs, s.toList = c :: cs ∧ isSpace c = false
  last : ∃ cs c, s.toList = cs ++ [c] ∧ isSpace c = false

theorem trimSpace_append {s blanks : String} (h : Trimmed s) (hblanks : ∀ c ∈ blanks.toList, isSpace c = true) :
    trimSpace (s ++ blanks) = s := by
  obtain ⟨c, cs, hs, hc⟩ := h.first
  obtain ⟨ds, d, hs', hd⟩ := h.last
  have hfront : (s ++ blanks).toList.dropWhile isSpace = s.toList ++ blanks.toList := by
    rw [String.toList_append, hs, List.cons_append, List.dropWhile_cons_of_neg (by simp [hc])]
  have hback : (s.toList ++ blanks.toList).reverse.dropWhile isSpace = s.toList.reverse := by
    rw [List.reverse_append, List.dropWhile_append_of_pos fun c hc => hblanks c (List.mem_reverse.1 hc), hs',
      List.reverse_append, List.reverse_singleton, List.singleton_append, List.dropWhile_cons_of_neg (by simp [hd])]
  unfold trimSpace
  rw [hfront, hback, List.reverse_reverse, String.ofList_toList]

theorem Trimmed.trimSpace_eq {s : String} (h : Trimmed s) : trimSpace s = s := by
  have htrim : trimSpace (s ++ "") = s := trimSpace_append h (by simp)
  rwa [String.append_empty] at htrim

/-- What is joined is trimmed if its parts are. -/
theorem trimmed_intercalate {sep : String} {ps : List String} (hne : ps ≠ []) (h : ∀ p ∈ ps, Trimmed p) :
    Trimmed (sep.intercalate ps) := by
  constructor
  · obtain ⟨p, qs, rfl⟩ := List.exists_cons_of_ne_nil hne
    obtain ⟨c, cs, hp, hc⟩ := (h p (.head _)).first
    obtain ⟨ds, hds⟩ := intercalate_cons_toList sep p qs
    exact ⟨c, cs ++ ds, by rw [hds, hp, List.cons_append], hc⟩
  · obtain ⟨cs, c, hp, hc⟩ := (h _ (List.getLast_mem hne)).last
    obtain ⟨ds, hds⟩ := intercalate_concat_toList sep (ps.getLast hne) ps.dropLast
    rw [List.dropLast_concat_getLast] at hds
    exact ⟨ds ++ cs, c, by rw [hds, hp, List.append_assoc], hc⟩

end Split

end Go
