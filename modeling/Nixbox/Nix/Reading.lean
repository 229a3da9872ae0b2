/-
Attribute names and string literals read back from the generated text by Nix's rules: a literal
stands for the string it was rendered from, and a name for itself unless it is a reserved word.
-/
import Nixbox.Nix.Flakes

namespace Nixbox.Nix

/-! ## The rules -/

/-- What reading on inside a double-quoted literal comes to: its value and the text behind the closing
quote, an interpolation before that, or the end of the text. -/
inductive Literal
  | closed (value rest : List Char)
  | interpolation
  | unclosed
  deriving DecidableEq, Repr

/-- Characters read before the others. -/
def Literal.put (cs : List Char) : Literal → Literal
  | .closed value rest => .closed (cs ++ value) rest
  | .interpolation => .interpolation
  | .unclosed => .unclosed

/-- The character a backslash and `c` stand for. -/
def unescaped : Char → Char
  | 'n' => '\n'
  | 'r' => '\r'
  | 't' => '\t'
  | c => c

/-- A dollar takes along the character behind it, unless that is a quote or starts an escape. A raw
carriage return, which Nix would make a newline, is read as it stands. -/
def readBody : List Char → Literal
  | '"' :: cs => .closed [] cs
  | '\\' :: c :: cs => (readBody cs).put [unescaped c]
  | '$' :: '\x7b' :: _ => .interpolation
  | '$' :: c :: cs => if c = '"' ∨ c = '\\' then (readBody (c :: cs)).put ['$'] else (readBody cs).put ['$', c]
  | c :: cs => (readBody cs).put [c]
  | [] => .unclosed

/-- What is read of a string from its first quote on. -/
def readLiteral : List Char → Literal
  | '"' :: cs => readBody cs
  | _ => .unclosed

/-- What an identifier can begin with. -/
def isIdentStart (c : Char) : Bool := c.isAlpha || c == '_'

/-- What can follow in an identifier. -/
def isIdentRest (c : Char) : Bool := c.isAlphanum || c == '_' || c == '\'' || c == '-'

/-- The words that are no identifiers. -/
def reservedWords : List String := ["if", "then", "else", "assert", "with", "let", "in", "rec", "inherit"]

/-- An attribute name at the front of a text, and the text behind it. -/
def readAttrName : List Char → Option (String × List Char)
  | '"' :: cs =>
    match readBody cs with
    | .closed value rest => some (String.ofList value, rest)
    | _ => none
  | c :: cs =>
    let word := String.ofList (c :: cs.takeWhile isIdentRest)
    if isIdentStart c && word ∉ reservedWords then some (word, cs.dropWhile isIdentRest) else none
  | [] => none

/-- The attribute name a binding on a line of its own begins with. -/
def readBinding (text : String) : Option (String × List Char) := readAttrName (text.toList.dropWhile (· == ' '))

/-! ## Literals -/

section Literals

variable {s : List Char} {c : Char} {u : List Char}

theorem readBody_plain (hquote : c ≠ '"') (hslash : c ≠ '\\') (hdollar : c ≠ '$') :
    readBody (c :: u) = (readBody u).put [c] := by
  rw [readBody]
  · exact hquote
  · rintro _ _ rfl _
    exact hslash rfl
  · rintro _ rfl _
    exact hdollar rfl
  · rintro _ _ rfl _
    exact hdollar rfl

theorem readBody_dollar (hquote : c ≠ '"') (hslash : c ≠ '\\') (hbrace : c ≠ '\x7b') :
    readBody ('$' :: c :: u) = (readBody u).put ['$', c] := by
  rw [readBody]
  · rw [if_neg (not_or.2 ⟨hquote, hslash⟩)]
  · exact hbrace

theorem readBody_dollar_end (h : c = '"' ∨ c = '\\') : readBody ('$' :: c :: u) = (readBody (c :: u)).put ['$'] := by
  rw [readBody]
  · rw [if_pos h]
  · rintro rfl
    exact absurd h (by decide)

/-- An escape is read as its character, also behind a dollar. -/
theorem readBody_escape {value rest : List Char} (h : readBody u = .closed value rest) (c : Char) :
    readBody ('\\' :: c :: u) = .closed (unescaped c :: value) rest ∧
      readBody ('$' :: '\\' :: c :: u) = .closed ('$' :: unescaped c :: value) rest := by
  have hesc : readBody ('\\' :: c :: u) = .closed (unescaped c :: value) rest := by
    rw [readBody, h]
    rfl
  rw [readBody_dollar_end (.inr rfl), hesc]
  exact ⟨rfl, rfl⟩

/-- The escaped text is read back up to the closing quote. A dollar kept in front of it takes along its
first character if that is kept too, and nothing of an escape. -/
theorem readBody_nixEscape (s rest : List Char) : readBody (nixEscape s ++ '"' :: rest) = .closed s rest ∧
    (s.head? ≠ some '\x7b' → readBody ('$' :: (nixEscape s ++ '"' :: rest)) = .closed ('$' :: s) rest) := by
  fun_induction nixEscape s with
  | case1 cs ih | case2 cs ih | case3 cs ih =>
    obtain ⟨hesc, hdollar⟩ := readBody_escape ih.1 _
    exact ⟨hesc, fun _ => hdollar⟩
  -- the escaped start of an interpolation
  | case4 cs ih =>
    have hbrace : readBody ('\x7b' :: (nixEscape cs ++ '"' :: rest)) = .closed ('\x7b' :: cs) rest := by
      rw [readBody_plain (by decide) (by decide) (by decide), ih.1]
      rfl
    obtain ⟨hesc, hdollar⟩ := readBody_escape hbrace '$'
    exact ⟨hesc, fun _ => hdollar⟩
  -- a plain character; a dollar is not followed by an opening brace, which would have been escaped
  | case5 c cs hslash hquote hnewline hopen ih =>
    constructor
    · by_cases hc : c = '$'
      · subst hc
        refine ih.2 fun hbrace => ?_
        obtain ⟨t, rfl⟩ : ∃ t, cs = '\x7b' :: t := by
          cases cs with
          | nil => simp at hbrace
          | cons d t => exact ⟨t, by simpa using hbrace⟩
        exact hopen t rfl rfl
      · rw [List.cons_append, readBody_plain hquote hslash hc, ih.1]
        rfl
    · intro hbrace
      rw [List.cons_append, readBody_dollar hquote hslash (by simpa using hbrace), ih.1]
      rfl
  | case6 =>
    refine ⟨by rw [List.nil_append, readBody], fun _ => ?_⟩
    rw [List.nil_append, readBody_dollar_end (.inl rfl), readBody]
    rfl

theorem toList_nixStr (s : String) : (nixStr s).toList = '"' :: (nixEscape s.toList ++ ['"']) := by
  simp [nixStr]

/-- A rendered string is one literal, wherever it stands, and has its value. -/
theorem readLiteral_nixStr (s : String) (rest : List Char) :
    readLiteral ((nixStr s).toList ++ rest) = .closed s.toList rest := by
  rw [toList_nixStr, List.cons_append, List.append_assoc]
  exact (readBody_nixEscape s.toList rest).1

end Literals

/-! ## Names -/

section Names

variable {name : String} {rest : List Char}

theorem isBareName_iff : isBareName name = true ↔
    ∃ c cs, name.toList = c :: cs ∧ isIdentStart c = true ∧ ∀ d ∈ cs, isIdentRest d = true := by
  unfold isBareName
  split
  · rename_i h
    simp [h]
  · rename_i c cs h
    rw [Bool.and_eq_true, List.all_eq_true, h]
    constructor
    · rintro ⟨hc, hcs⟩
      exact ⟨c, cs, rfl, hc, hcs⟩
    · rintro ⟨c', cs', heq, hc, hcs⟩
      cases heq
      exact ⟨hc, hcs⟩

/-- Characters of names stand for themselves in a literal. -/
theorem nixEscape_plain {cs : List Char} (h : ∀ c ∈ cs, isAlnum c = true ∨ c = '-') : nixEscape cs = cs := by
  fun_induction nixEscape cs with
  | case1 | case2 | case3 | case4 => exact absurd (h _ (.head _)) (by decide)
  | case5 c cs _ _ _ _ ih => rw [ih fun d hd => h d (.tail _ hd)]
  | case6 => rfl

/-- A quoted name is read as the name. -/
theorem readAttrName_quoted (h : ∀ c ∈ name.toList, isAlnum c = true ∨ c = '-') :
    readAttrName (("\"" ++ name ++ "\"").toList ++ rest) = some (name, rest) := by
  have hbody : readBody (name.toList ++ '"' :: rest) = .closed name.toList rest := by
    have hread := (readBody_nixEscape name.toList rest).1
    rwa [nixEscape_plain h] at hread
  have hlist : ("\"" ++ name ++ "\"").toList ++ rest = '"' :: (name.toList ++ '"' :: rest) := by simp
  rw [hlist, readAttrName, hbody]
  simp

/-- A bare name is read as the name, if it is not reserved, and up to its end. -/
theorem readAttrName_bare (h : isBareName name = true) (hrest : ∀ c ∈ rest.head?, isIdentRest c = false) :
    readAttrName (name.toList ++ rest) = if name ∈ reservedWords then none else some (name, rest) := by
  obtain ⟨c, cs, hlist, hc, hcs⟩ := isBareName_iff.1 h
  have htake : (cs ++ rest).takeWhile isIdentRest = cs := by
    rw [List.takeWhile_append_of_pos hcs]
    cases rest with
    | nil => simp
    | cons d rest => rw [List.takeWhile_cons_of_neg (by simp [hrest d rfl]), List.append_nil]
  have hdrop : (cs ++ rest).dropWhile isIdentRest = rest := by
    rw [List.dropWhile_append_of_pos hcs]
    cases rest with
    | nil => rfl
    | cons d rest => rw [List.dropWhile_cons_of_neg (by simp [hrest d rfl])]
  have hname : String.ofList (c :: cs) = name := by rw [← hlist, String.ofList_toList]
  have hquote : c ≠ '"' := by
    rintro rfl
    exact absurd hc (by decide)
  rw [hlist, List.cons_append, readAttrName]
  · rw [htake, hdrop, hname, hc, Bool.true_and]
    simp only [decide_eq_true_eq, ite_not]
  · exact hquote

/-! ## Where the names stand -/

/-- A line of a section of index.nix. -/
def PathBinding.text (b : PathBinding) : String := "    " ++ b.attr ++ " = " ++ b.path ++ ";\n"

theorem sectionText_eq (s : String × List String) :
    sectionText s = "  " ++ s.1 ++ " = \x7b\n" ++ String.join ((sectionBindings s).map (·.text)) ++ "  \x7d;\n" := rfl

/-- The texts that bind a name in the generated files: a workload in a section and a secret of index.nix,
an input of flake.nix. -/
inductive Binds (name : String) : String → Prop
  | workload (key : String) {b : PathBinding} (h : b ∈ sectionBindings (key, [name])) : Binds name b.text
  | secret {s : IndexSecret} (h : s.name = name) : Binds name s.text
  | input {i : FlakeInput} (h : i.name = name) : Binds name i.decl.text

/-- The text behind the attribute begins with a blank or with the dot of a path. -/
theorem Binds.split {text : String} (h : Binds name text) : ∃ after, text = "    " ++ nixAttrName name ++ after ∧
    ∀ c ∈ after.toList.head?, isIdentRest c = false := by
  suffices h : ∃ after, "    " ++ (nixAttrName name ++ after) = text ∧
      (after.toList.head? = some ' ' ∨ after.toList.head? = some '.') by
    obtain ⟨after, rfl, hhead⟩ := h
    refine ⟨after, (String.append_assoc ..).symm, fun c hc => ?_⟩
    rcases hhead with hhead | hhead <;> rw [hhead] at hc <;> cases hc <;> decide
  cases h with
  | workload key h =>
    cases List.mem_singleton.1 h
    unfold PathBinding.text
    simp only [String.append_assoc]
    exact ⟨_, rfl, .inl (by simp)⟩
  | secret h =>
    subst h
    unfold IndexSecret.text
    simp only [String.append_assoc]
    exact ⟨_, rfl, .inl (by simp)⟩
  | @input i h =>
    subst h
    unfold FlakeInput.decl
    split <;> unfold InputDecl.text <;> simp only [String.append_assoc]
    · exact ⟨_, rfl, .inl (by simp)⟩
    · simp only [List.map_cons, List.map_nil, String.join_cons, String.join_nil, String.append_assoc]
      exact ⟨_, rfl, .inr (by simp)⟩

theorem nixAttrName_head (name : String) : ∃ c cs, (nixAttrName name).toList = c :: cs ∧ c ≠ ' ' := by
  unfold nixAttrName
  split
  · rename_i hbare
    obtain ⟨c, cs, hlist, hc, -⟩ := isBareName_iff.1 hbare
    refine ⟨c, cs, hlist, ?_⟩
    rintro rfl
    exact absurd hc (by decide)
  · exact ⟨'"', name.toList ++ ['"'], by simp, by decide⟩

theorem readBinding_eq (name after : String) :
    readBinding ("    " ++ nixAttrName name ++ after) = readAttrName ((nixAttrName name).toList ++ after.toList) := by
  obtain ⟨c, cs, hlist, hc⟩ := nixAttrName_head name
  unfold readBinding
  rw [String.toList_append, String.toList_append, hlist]
  simp [hc]

theorem isBareName_of_reserved (h : name ∈ reservedWords) : isBareName name = true := by
  have hall : ∀ word ∈ reservedWords, isBareName word = true := by decide
  exact hall name h

/-- What a binding of a valid name is read as. -/
theorem Binds.read {text : String} (hname : validateName name = .ok ()) (h : Binds name text) :
    ∃ after, text = "    " ++ nixAttrName name ++ after ∧
      readBinding text = if name ∈ reservedWords then none else some (name, after.toList) := by
  obtain ⟨after, rfl, hafter⟩ := h.split
  refine ⟨after, rfl, ?_⟩
  rw [readBinding_eq]
  by_cases hbare : isBareName name = true
  · rw [nixAttrName, if_pos hbare, readAttrName_bare hbare hafter]
  · have hfree : name ∉ reservedWords := fun hres => hbare (isBareName_of_reserved hres)
    rw [nixAttrName, if_neg hbare, if_neg hfree, readAttrName_quoted (nameRe_chars (validateName_ok.1 hname))]

/-- In every place where the generated files bind a valid name, it is read as one attribute name, which is
the name, exactly if it is not a reserved word. -/
theorem nixAttrName_reads_iff {text : String} (hname : validateName name = .ok ()) (h : Binds name text) :
    (∃ after, text = "    " ++ nixAttrName name ++ after ∧ readBinding text = some (name, after.toList)) ↔
      name ∉ reservedWords := by
  obtain ⟨after, htext, hread⟩ := h.read hname
  rw [hread]
  constructor
  · rintro ⟨_, -, hsome⟩ hres
    rw [if_pos hres] at hsome
    cases hsome
  · intro hfree
    exact ⟨after, htext, if_neg hfree⟩

theorem nixAttrName_reads_iff_digit : (∃ after, (FlakeInput.decl ⟨"0ad", "github:owner/0ad", false⟩).text =
      "    " ++ nixAttrName "0ad" ++ after ∧
        readBinding (FlakeInput.decl ⟨"0ad", "github:owner/0ad", false⟩).text = some ("0ad", after.toList)) ↔
      "0ad" ∉ reservedWords :=
  nixAttrName_reads_iff (by decide) (.input rfl)

/-- A workload called `with` is valid, and makes index.nix unreadable. -/
theorem nixAttrName_reserved : ¬ ∀ name text, validateName name = .ok () → Binds name text →
    ∃ after, text = "    " ++ nixAttrName name ++ after ∧ readBinding text = some (name, after.toList) := by
  intro h
  obtain ⟨after, -, hread⟩ := h "with" _ (by decide) (.workload "containers" (.head _))
  have hnone : readBinding (PathBinding.text ⟨"containers", nixAttrName "with", workloadPath "with"⟩) = none := by
    decide
  rw [hnone] at hread
  cases hread

end Names

end Nixbox.Nix
