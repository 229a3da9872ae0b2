/-
The part of the Nix language the generated files are written in: texts are split into tokens, and these
put together to attribute sets, lists, strings, numbers, paths and variables. What lies outside this part
is not read.
-/
import Nixbox.Nix.Reading

namespace Nixbox.Nix

/-! ## Tokens -/

/-- The tokens of the texts that are read. -/
inductive Token
  | sym (c : Char)
  | word (w : String)
  | str (value : String)
  | path (p : String)
  | int (n : Nat)
  deriving DecidableEq, Repr

/-- White space. -/
def isBlank (c : Char) : Bool := c == ' ' || c == '\n' || c == '\t' || c == '\r'

/-- A character of a path, its slashes aside. -/
def isPathChar (c : Char) : Bool := c.isAlphanum || c == '.' || c == '_' || c == '-' || c == '+'

/-- The longest front of a text that goes on a path: path characters, and slashes before such. -/
def pathRun : List Char → List Char
  | '/' :: c :: cs => if isPathChar c then '/' :: pathRun (c :: cs) else []
  | c :: cs => if isPathChar c then c :: pathRun cs else []
  | [] => []

/-- The symbols of sets and lists. -/
def symbols : List Char := ['\x7b', '\x7d', '[', ']', '=', ';']

/-- What a text begins with, if that is a token, and the text behind it. -/
def lexeme : List Char → Option (Option Token × List Char)
  | [] => none
  | '#' :: cs => some (none, cs.dropWhile fun c => c != '\n' && c != '\r')
  | '"' :: cs =>
    match readBody cs with
    | .closed value rest => some (some (.str (String.ofList value)), rest)
    | _ => none
  | c :: cs =>
    if isBlank c then some (none, cs)
    else if c ∈ symbols then some (some (.sym c), cs)
    else if '/' ∈ pathRun (c :: cs) then
      some (some (.path (String.ofList (pathRun (c :: cs)))), (c :: cs).drop (pathRun (c :: cs)).length)
    else if isIdentStart c then
      some (some (.word (String.ofList (c :: cs.takeWhile isIdentRest))), cs.dropWhile isIdentRest)
    else if c.isDigit && (cs.dropWhile Char.isDigit).head? != some '.' then
      some (some (.int (Nat.ofDigitChars 10 (c :: cs.takeWhile Char.isDigit) 0)), cs.dropWhile Char.isDigit)
    else none

/-- The tokens of a text. -/
def lex (cs : List Char) : Option (List Token) :=
  if cs = [] then some []
  else
    match lexeme cs with
    | none => none
    | some (t, rest) => if rest.length < cs.length then (lex rest).map (t.toList ++ ·) else none
  termination_by cs.length

/-! ## Expressions -/

/-- What is read: a set with its bindings, a list, or a literal. -/
inductive Expr
  | str (s : String)
  | int (n : Nat)
  | path (p : String)
  | var (x : String)
  | list (es : List Expr)
  | attrs (bs : List (String × Expr))

/-- What has been read of the expressions around the next token. -/
inductive Frame
  | file (e : Option Expr)
  | list (es : List Expr)
  | attrs (bs : List (String × Expr))
  | named (bs : List (String × Expr)) (name : String)
  | binding (bs : List (String × Expr)) (name : String)
  | bound (bs : List (String × Expr)) (name : String) (e : Expr)

/-- An expression may stand here. -/
def Frame.open : Frame → Bool
  | .file none | .list _ | .binding .. => true
  | _ => false

/-- The sets and lists that are open, the innermost first. -/
abbrev Frames := List Frame

namespace Frames

/-- The frames after a whole expression. -/
def put (e : Expr) : Frames → Option Frames
  | .file none :: st => some (.file (some e) :: st)
  | .list es :: st => some (.list (es ++ [e]) :: st)
  | .binding bs name :: st => some (.bound bs name e :: st)
  | _ => none

/-- The token is the first of an expression. -/
def start (st : Frames) : Token → Option Frames
  | .sym '\x7b' => some (.attrs [] :: st)
  | .sym '[' => some (.list [] :: st)
  | .sym _ => none
  | .word w => if w ∈ reservedWords then none else st.put (.var w)
  | .str s => st.put (.str s)
  | .path p => st.put (.path p)
  | .int n => st.put (.int n)

/-- An attribute is defined once. -/
def feed : Frames → Token → Option Frames
  | .attrs bs :: st, .sym '\x7d' => put (.attrs bs) st
  | .attrs bs :: st, .word w => if w ∈ reservedWords then none else some (.named bs w :: st)
  | .attrs bs :: st, .str s => some (.named bs s :: st)
  | .named bs name :: st, .sym '=' => some (.binding bs name :: st)
  | .bound bs name e :: st, .sym ';' =>
    if name ∈ bs.map (·.1) then none else some (.attrs (bs ++ [(name, e)]) :: st)
  | .list es :: st, .sym ']' => put (.list es) st
  | f :: st, t => if f.open then start (f :: st) t else none
  | [], _ => none

/-- The frames after some tokens. -/
def feedAll (st : Frames) (ts : List Token) : Option Frames := ts.foldlM feed st

end Frames

/-- The expression some tokens are read as. -/
def parseNix (ts : List Token) : Option Expr :=
  match Frames.feedAll [.file none] ts with
  | some [.file e] => e
  | _ => none

/-- The expression a file is read as. -/
def readNix (text : String) : Option Expr := (lex text.toList).bind parseNix

/-! ## The tokens of an expression -/

/-- A name is a word if it is bare, else it is quoted. -/
def nameToken (name : String) : Token := if isBareName name then .word name else .str name

mutual

/-- The tokens of an expression. -/
def Expr.tokens : Expr → List Token
  | .str s => [.str s]
  | .int n => [.int n]
  | .path p => [.path p]
  | .var x => [.word x]
  | .list es => .sym '[' :: (listTokens es ++ [.sym ']'])
  | .attrs bs => .sym '\x7b' :: (attrsTokens bs ++ [.sym '\x7d'])

/-- The tokens of the elements of a list. -/
def listTokens : List Expr → List Token
  | [] => []
  | e :: es => e.tokens ++ listTokens es

/-- The tokens of the bindings of a set. -/
def attrsTokens : List (String × Expr) → List Token
  | [] => []
  | (name, e) :: bs => nameToken name :: .sym '=' :: (e.tokens ++ .sym ';' :: attrsTokens bs)
end

mutual
/-- No name in the expression is reserved, and none is bound twice in one set. -/
def Expr.readable : Expr → Bool
  | .str _ => true
  | .int _ => true
  | .path _ => true
  | .var x => x ∉ reservedWords
  | .list es => readableList es
  | .attrs bs => decide ((bs.map (·.1)).Nodup) && readableAttrs bs

/-- The elements of the list can be read. -/
def readableList : List Expr → Bool
  | [] => true
  | e :: es => e.readable && readableList es

/-- The bindings of the set can be read. -/
def readableAttrs : List (String × Expr) → Bool
  | [] => true
  | (name, e) :: bs => name ∉ reservedWords && e.readable && readableAttrs bs
end

namespace Frames

theorem feedAll_append (st : Frames) (ts us : List Token) :
    st.feedAll (ts ++ us) = (st.feedAll ts).bind fun st => feedAll st us := List.foldlM_append

theorem feedAll_cons (st : Frames) (t : Token) (ts : List Token) :
    st.feedAll (t :: ts) = (st.feed t).bind fun st => feedAll st ts := rfl

theorem feedAll_one (st : Frames) (t : Token) : st.feedAll [t] = st.feed t := Option.bind_fun_some _

section Feed

variable {f : Frame} {st : Frames} {bs : List (String × Expr)} {name : String}

/-- A name is read unless it is reserved. -/
theorem feed_name : feed (.attrs bs :: st) (nameToken name) =
    if name ∈ reservedWords then none else some (.named bs name :: st) := by
  unfold nameToken
  split
  · rfl
  · rename_i hquoted
    rw [if_neg fun hres => hquoted (isBareName_of_reserved hres)]
    rfl

theorem feed_open {t : Token} (hf : f.open = true) (ht : t ≠ .sym ']') : feed (f :: st) t = start (f :: st) t := by
  cases f with
  | list es =>
    rw [feed]
    · rfl
    · exact nofun
    · exact nofun
    · exact nofun
    · exact nofun
    · exact nofun
    · exact fun _ heq _ => ht heq
  | file e =>
    rw [feed]
    · rw [if_pos hf]
    all_goals exact nofun
  | binding bs name =>
    rw [feed]
    · rfl
    all_goals exact nofun
  | _ => cases hf

end Feed

/-! An expression goes through whole or not at all, wherever one may stand. -/

mutual
theorem feedAll_tokens {f : Frame} {st : Frames} (hf : f.open = true) : ∀ e : Expr,
    feedAll (f :: st) e.tokens = if e.readable then put e (f :: st) else none
  | .str s | .int n | .path p => by
    rw [Expr.tokens, feedAll_one, feed_open hf (by exact nofun), Expr.readable, start, if_pos rfl]
  | .var x => by
    rw [Expr.tokens, feedAll_one, feed_open hf (by exact nofun), Expr.readable]
    by_cases hx : x ∈ reservedWords
    · rw [start, if_pos hx, if_neg fun h => absurd hx (of_decide_eq_true h)]
    · rw [start, if_neg hx, if_pos (decide_eq_true hx)]
  | .list es => by
    rw [Expr.tokens, feedAll_cons, feed_open hf (by decide), Expr.readable]
    show feedAll (.list [] :: f :: st) _ = _
    rw [feedAll_append, feedAll_list es, List.nil_append]
    split
    · exact feedAll_one _ _
    · rfl
  | .attrs bs => by
    rw [Expr.tokens, feedAll_cons, feed_open hf (by decide), Expr.readable]
    show feedAll (.attrs [] :: f :: st) _ = _
    rw [feedAll_append, feedAll_attrs bs (by exact List.nodup_nil)]
    simp only [List.nil_append, Bool.and_eq_true, decide_eq_true_eq]
    split
    · exact feedAll_one _ _
    · rfl

theorem feedAll_list {st : Frames} : ∀ (es : List Expr) {done : List Expr},
    feedAll (.list done :: st) (listTokens es) = if readableList es then some (.list (done ++ es) :: st) else none
  | [], done => by
    rw [listTokens, readableList, if_pos rfl, List.append_nil]
    rfl
  | e :: es, done => by
    rw [listTokens, feedAll_append, feedAll_tokens rfl e, readableList]
    by_cases he : e.readable = true
    · rw [if_pos he, he, Bool.true_and]
      show feedAll (.list (done ++ [e]) :: st) _ = _
      rw [feedAll_list es, List.append_assoc]
      rfl
    · rw [if_neg he, Bool.eq_false_iff.2 he]
      rfl

theorem feedAll_attrs {st : Frames} : ∀ (bs : List (String × Expr)) {done : List (String × Expr)},
    (done.map (·.1)).Nodup → feedAll (.attrs done :: st) (attrsTokens bs) =
      if ((done ++ bs).map (·.1)).Nodup ∧ readableAttrs bs = true then some (.attrs (done ++ bs) :: st) else none
  | [], done, hdone => by
    rw [attrsTokens, readableAttrs, List.append_nil, if_pos ⟨hdone, rfl⟩]
    rfl
  | (name, e) :: bs, done, hdone => by
    have hsplit : done ++ (name, e) :: bs = done ++ [(name, e)] ++ bs := List.append_cons ..
    rw [attrsTokens, feedAll_cons, feed_name, readableAttrs]
    by_cases hname : name ∈ reservedWords
    · simp [hname]
    rw [if_neg hname, Option.bind_some, feedAll_cons]
    show feedAll (.binding done name :: st) _ = _
    rw [feedAll_append, feedAll_tokens rfl e]
    by_cases he : e.readable = true
    · rw [if_pos he]
      show feedAll (.bound done name e :: st) _ = _
      rw [feedAll_cons]
      show (if name ∈ done.map (·.1) then none else some (.attrs (done ++ [(name, e)]) :: st)).bind _ = _
      by_cases hbound : name ∈ done.map (·.1)
      -- bound twice
      · have hdup : ¬ ((done ++ (name, e) :: bs).map (·.1)).Nodup := by
          intro hnd
          rw [List.map_append, List.nodup_append] at hnd
          exact hnd.2.2 _ hbound _ (.head _) rfl
        rw [if_pos hbound, if_neg fun h => hdup h.1]
        rfl
      · have hdone' : ((done ++ [(name, e)]).map (·.1)).Nodup := by
          rw [List.map_append, List.nodup_append]
          refine ⟨hdone, List.nodup_singleton _, ?_⟩
          rintro a ha b hb rfl
          cases List.mem_singleton.1 hb
          exact hbound ha
        rw [if_neg hbound, Option.bind_some, feedAll_attrs bs hdone', ← hsplit]
        simp [hname, he]
    · rw [if_neg he, if_neg fun h => he (by simpa using (Bool.and_eq_true_iff.1 (Bool.and_eq_true_iff.1 h.2).1).2)]
      rfl
end

end Frames

/-! ## Texts and their tokens -/

section Lex

variable {c : Char} {cs rest : List Char}

theorem lex_nil : lex [] = some [] := by
  rw [lex]
  exact if_pos rfl

theorem lex_step (t : Option Token) (rest : List Char) (h : lexeme (c :: cs) = some (t, rest))
    (hlt : rest.length ≤ cs.length) :
    lex (c :: cs) = (lex rest).map (t.toList ++ ·) := by
  rw [lex, if_neg (List.cons_ne_nil _ _), h]
  exact if_pos (Nat.lt_succ_of_le hlt)

theorem lexeme_plain (hcomment : c ≠ '#') (hquote : c ≠ '"') : lexeme (c :: cs) =
    if isBlank c then some (none, cs)
    else if c ∈ symbols then some (some (.sym c), cs)
    else if '/' ∈ pathRun (c :: cs) then
      some (some (.path (String.ofList (pathRun (c :: cs)))), (c :: cs).drop (pathRun (c :: cs)).length)
    else if isIdentStart c then
      some (some (.word (String.ofList (c :: cs.takeWhile isIdentRest))), cs.dropWhile isIdentRest)
    else if c.isDigit && (cs.dropWhile Char.isDigit).head? != some '.' then
      some (some (.int (Nat.ofDigitChars 10 (c :: cs.takeWhile Char.isDigit) 0)), cs.dropWhile Char.isDigit)
    else none := by
  rw [lexeme]
  · exact hcomment
  · exact hquote

theorem lex_blank (h : isBlank c = true) : lex (c :: cs) = lex cs := by
  have hplain : c ≠ '#' ∧ c ≠ '"' := by
    constructor <;> rintro rfl <;> exact absurd h (by decide)
  rw [lex_step none cs (by rw [lexeme_plain hplain.1 hplain.2, if_pos h]) le_rfl]
  simp

theorem lex_sym (h : c ∈ symbols) : lex (c :: cs) = (lex cs).map (.sym c :: ·) := by
  have hplain : symbols.all (fun c => c ≠ '#' && (c ≠ '"' && !isBlank c)) = true := by decide
  have hc := List.all_eq_true.1 hplain c h
  rw [Bool.and_eq_true, Bool.and_eq_true, Bool.not_eq_true', decide_eq_true_eq, decide_eq_true_eq] at hc
  obtain ⟨hcomment, hquote, hblank⟩ := hc
  rw [lex_step (some (.sym c)) cs (by rw [lexeme_plain hcomment hquote, hblank]; exact if_pos h) le_rfl]
  rfl

theorem takeWhile_append_stop {p : Char → Bool} (c : Char) (rest : List Char)
    (hcs : ∀ d ∈ cs, p d = true) (hc : p c = false) :
    (cs ++ c :: rest).takeWhile p = cs ∧ (cs ++ c :: rest).dropWhile p = c :: rest := by
  rw [List.takeWhile_append_of_pos hcs, List.dropWhile_append_of_pos hcs,
    List.takeWhile_cons_of_neg (by simp [hc]), List.dropWhile_cons_of_neg (by simp [hc]), List.append_nil]
  exact ⟨rfl, rfl⟩

/-- A comment up to the end of its line. -/
theorem lex_comment (h : ∀ c ∈ cs, (c != '\n' && c != '\r') = true) :
    lex ('#' :: (cs ++ '\n' :: rest)) = lex ('\n' :: rest) := by
  have hdrop := (takeWhile_append_stop '\n' rest h (by decide)).2
  rw [lex_step none ('\n' :: rest) (by rw [lexeme, hdrop]) (by simp)]
  simp

theorem lex_nixStr (s : String) : lex ((nixStr s).toList ++ rest) = (lex rest).map (.str s :: ·) := by
  rw [toList_nixStr, List.cons_append, List.append_assoc, List.singleton_append]
  have hread := (readBody_nixEscape s.toList rest).1
  have hlen : rest.length ≤ (nixEscape s.toList ++ '"' :: rest).length := by
    rw [List.length_append, List.length_cons]
    omega
  rw [lex_step (some (.str s)) rest ?_ hlen]
  · rfl
  · rw [lexeme, hread]
    simp

/-! The front of a text that goes on a path. -/

theorem pathRun_cons (hc : isPathChar c = true) : pathRun (c :: cs) = c :: pathRun cs := by
  rw [pathRun, if_pos hc]
  rintro _ _ rfl
  exact absurd hc (by decide)

theorem pathRun_slash (hc : isPathChar c = true) : pathRun ('/' :: c :: cs) = '/' :: pathRun (c :: cs) := by
  rw [pathRun, if_pos hc]

theorem pathRun_stop (hc : isPathChar c = false) (hslash : c ≠ '/') : pathRun (c :: cs) = [] := by
  rw [pathRun, if_neg (by simp [hc])]
  rintro _ _ rfl
  exact absurd rfl hslash

theorem pathRun_append (h : ∀ c ∈ cs, isPathChar c = true) : pathRun (cs ++ rest) = cs ++ pathRun rest := by
  induction cs with
  | nil => rfl
  | cons c cs ih =>
    rw [List.cons_append, pathRun_cons (h c (.head _)), ih fun d hd => h d (.tail _ hd)]
    rfl

/-- No path goes on over a blank. -/
theorem slash_notMem_pathRun (h : '/' ∉ cs) : '/' ∉ pathRun (cs ++ ' ' :: rest) := by
  induction cs with
  | nil =>
    rw [List.nil_append, pathRun_stop (by decide) (by decide)]
    exact List.not_mem_nil
  | cons d cs ih =>
    rw [List.mem_cons, not_or] at h
    by_cases hd : isPathChar d = true
    · rw [List.cons_append, pathRun_cons hd, List.mem_cons, not_or]
      exact ⟨h.1, ih h.2⟩
    · rw [List.cons_append, pathRun_stop (Bool.eq_false_iff.2 hd) (Ne.symm h.1)]
      exact List.not_mem_nil

/-- The characters that no word, number or path begins with. -/
def specials : List Char := '#' :: '"' :: ' ' :: '\n' :: '\t' :: '\r' :: symbols

theorem not_special {p : Char → Bool} (hp : specials.any p = false) (hc : p c = true) : c ∉ specials := by
  intro hmem
  rw [List.any_eq_true.2 ⟨c, hmem, hc⟩] at hp
  cases hp

theorem lexeme_run (h : c ∉ specials) : lexeme (c :: cs) =
    if '/' ∈ pathRun (c :: cs) then
      some (some (.path (String.ofList (pathRun (c :: cs)))), (c :: cs).drop (pathRun (c :: cs)).length)
    else if isIdentStart c then
      some (some (.word (String.ofList (c :: cs.takeWhile isIdentRest))), cs.dropWhile isIdentRest)
    else if c.isDigit && (cs.dropWhile Char.isDigit).head? != some '.' then
      some (some (.int (Nat.ofDigitChars 10 (c :: cs.takeWhile Char.isDigit) 0)), cs.dropWhile Char.isDigit)
    else none := by
  simp only [specials, List.mem_cons, not_or] at h
  obtain ⟨hcomment, hquote, hspace, hline, htab, hreturn, hsym⟩ := h
  rw [lexeme_plain hcomment hquote, if_neg (by simp [isBlank, hspace, hline, htab, hreturn]), if_neg hsym]

/-- A bare name before a blank. -/
theorem lex_word {name : String} (h : isBareName name = true) :
    lex (name.toList ++ ' ' :: rest) = (lex (' ' :: rest)).map (.word name :: ·) := by
  obtain ⟨c, cs, hlist, hc, hcs⟩ := isBareName_iff.1 h
  have hslash : '/' ∉ c :: cs := by
    rw [List.mem_cons, not_or]
    constructor
    · rintro rfl
      exact absurd hc (by decide)
    · intro hmem
      exact absurd (hcs _ hmem) (by decide)
  have hrun : '/' ∉ pathRun (c :: (cs ++ ' ' :: rest)) := slash_notMem_pathRun hslash
  obtain ⟨htake, hdrop⟩ := takeWhile_append_stop ' ' rest hcs (by decide)
  have hname : String.ofList (c :: cs) = name := by rw [← hlist, String.ofList_toList]
  have hlen : (' ' :: rest).length ≤ (cs ++ ' ' :: rest).length := by
    rw [List.length_append]
    omega
  rw [hlist, List.cons_append, lex_step (some (.word name)) (' ' :: rest) ?_ hlen]
  · rfl
  · rw [lexeme_run (not_special (by decide) hc), if_neg hrun, if_pos hc, htake, hdrop, hname]

theorem isIdentStart_of_isDigit (h : c.isDigit = true) : isIdentStart c = false := by
  have hhi : c.toNat ≤ 57 := (Go.isDigit_iff.1 h).2
  refine Bool.eq_false_iff.2 fun hc => ?_
  unfold isIdentStart Char.isAlpha Char.isUpper Char.isLower at hc
  simp only [Bool.or_eq_true, Bool.and_eq_true, decide_eq_true_eq, beq_iff_eq] at hc
  rcases hc with (⟨hlo, -⟩ | ⟨hlo, -⟩) | rfl
  · have hlo : 65 ≤ c.toNat := hlo
    omega
  · have hlo : 97 ≤ c.toNat := hlo
    omega
  · exact absurd hhi (by decide)

/-- A number before a blank. -/
theorem lex_nat (n : Nat) : lex ((toString n).toList ++ ' ' :: rest) = (lex (' ' :: rest)).map (.int n :: ·) := by
  have hlist : (toString n).toList = Nat.toDigits 10 n := Nat.toList_repr
  have hdigits : ∀ d ∈ Nat.toDigits 10 n, d.isDigit = true := fun d hd =>
    Nat.isDigit_of_mem_toDigits (by decide) (by decide) hd
  have hvalue : Nat.ofDigitChars 10 (Nat.toDigits 10 n) 0 = n := Nat.ofDigitChars_ten_toDigits
  rw [hlist]
  obtain ⟨c, cs, hsplit⟩ := List.exists_cons_of_ne_nil (Nat.toDigits_ne_nil (n := n) (b := 10))
  rw [hsplit] at hdigits hvalue ⊢
  have hc := hdigits c (.head _)
  have hslash : '/' ∉ c :: cs := fun hmem => absurd (hdigits _ hmem) (by decide)
  have hrun : '/' ∉ pathRun (c :: (cs ++ ' ' :: rest)) := slash_notMem_pathRun hslash
  obtain ⟨htake, hdrop⟩ := takeWhile_append_stop ' ' rest
    (fun d hd => hdigits d (.tail _ hd)) (by decide)
  have hlen : (' ' :: rest).length ≤ (cs ++ ' ' :: rest).length := by
    rw [List.length_append]
    omega
  have hident := isIdentStart_of_isDigit hc
  rw [List.cons_append, lex_step (some (.int n)) (' ' :: rest) ?_ hlen]
  · rfl
  · rw [lexeme_run (not_special (by decide) hc), if_neg hrun, hident, if_neg Bool.false_ne_true,
      htake, hdrop, hvalue, hc]
    rfl

theorem pathRun_segments :
    ∀ {segs : List (List Char)}, (∀ s ∈ segs, s ≠ [] ∧ ∀ c ∈ s, isPathChar c = true) →
    pathRun (List.intercalate ['/'] segs ++ ';' :: rest) = List.intercalate ['/'] segs
  | [], _ => by
    rw [List.intercalate_nil, List.nil_append, pathRun_stop (by decide) (by decide)]
  | [s], h => by
    rw [List.intercalate_singleton, pathRun_append (h s (.head _)).2, pathRun_stop (by decide) (by decide),
      List.append_nil]
  | s :: t :: segs, h => by
    have htail := pathRun_segments fun u hu => h u (.tail _ hu)
    obtain ⟨c, cs, rfl⟩ := List.exists_cons_of_ne_nil (h t (.tail _ (.head _))).1
    have hc := (h _ (.tail _ (.head _))).2 c (.head _)
    obtain ⟨ds, hds⟩ : ∃ ds, List.intercalate ['/'] ((c :: cs) :: segs) = c :: ds := by
      cases segs with
      | nil => exact ⟨cs, List.intercalate_singleton⟩
      | cons u segs => exact ⟨_, List.intercalate_cons_cons⟩
    rw [hds, List.cons_append] at htail
    rw [List.intercalate_cons_cons, hds, List.append_assoc, List.append_assoc, pathRun_append (h s (.head _)).2,
      List.singleton_append, List.cons_append, pathRun_slash hc, htail, List.append_assoc, List.singleton_append]

/-- A path before the end of its binding. -/
theorem lex_path {p : String} {segs : List (List Char)} (hp : p.toList = List.intercalate ['/'] segs)
    (hlen : 2 ≤ segs.length) (hsegs : ∀ s ∈ segs, s ≠ [] ∧ ∀ c ∈ s, isPathChar c = true) :
    lex (p.toList ++ ';' :: rest) = (lex (';' :: rest)).map (.path p :: ·) := by
  have hrun : pathRun (p.toList ++ ';' :: rest) = p.toList := by rw [hp, pathRun_segments hsegs]
  obtain ⟨s, t, segs, rfl⟩ : ∃ s t segs', segs = s :: t :: segs' := by
    match segs, hlen with
    | s :: t :: segs, _ => exact ⟨s, t, segs, rfl⟩
  obtain ⟨c, cs, rfl⟩ := List.exists_cons_of_ne_nil (hsegs s (.head _)).1
  have hc : c ∉ specials := not_special (by decide) ((hsegs _ (.head _)).2 c (.head _))
  have hname : String.ofList p.toList = p := String.ofList_toList
  rw [List.intercalate_cons_cons] at hp
  have hslash : '/' ∈ p.toList := by
    rw [hp]
    simp
  rw [List.append_assoc, List.cons_append] at hp
  rw [hp] at hrun hslash hname ⊢
  generalize cs ++ (['/'] ++ List.intercalate ['/'] (t :: segs)) = ds at hrun hslash hname
  have hlen : (';' :: rest).length ≤ (ds ++ ';' :: rest).length := by
    rw [List.length_append]
    omega
  rw [List.cons_append] at hrun ⊢
  rw [lex_step (some (.path p)) (';' :: rest) ?_ hlen]
  · rfl
  · rw [lexeme_run hc, hrun, if_pos hslash, hname, List.length_cons, List.drop_succ_cons, List.drop_left]

end Lex

/-- The text is these tokens, whatever stands behind it. -/
def Lexes (text : String) (ts : List Token) : Prop := ∀ rest, lex (text.toList ++ rest) = (lex rest).map (ts ++ ·)

section Lexes

variable {text after : String} {ts us : List Token} {α : Type}

theorem Lexes.append (h : Lexes text ts) (hafter : Lexes after us) : Lexes (text ++ after) (ts ++ us) := by
  intro rest
  rw [String.toList_append, List.append_assoc, h, hafter, Option.map_map]
  simp only [Function.comp_def, List.append_assoc]

theorem Lexes.join {item : α → String} {toks : α → List Token} : ∀ {l : List α},
    (∀ a ∈ l, Lexes (item a) (toks a)) → Lexes (String.join (l.map item)) (l.flatMap toks)
  | [], _ => fun rest => by simp
  | a :: l, h => by
    rw [List.map_cons, String.join_cons, List.flatMap_cons]
    exact (h a (.head _)).append (Lexes.join fun b hb => h b (.tail _ hb))

theorem Lexes.lex_eq (h : Lexes text ts) : lex text.toList = some ts := by
  have hend := h []
  rw [List.append_nil, lex_nil] at hend
  rw [hend]
  simp

theorem Lexes.of_eq {text' : String} {ts' : List Token} (h : Lexes text ts) (htext : text = text') (hts : ts = ts') :
    Lexes text' ts' := htext ▸ hts ▸ h

/-- Blanks and symbols. -/
theorem lexes_marks (text : String) (h : text.toList.all (fun c => isBlank c || decide (c ∈ symbols)) = true) :
    Lexes text ((text.toList.filter fun c => !isBlank c).map .sym) := by
  intro rest
  generalize text.toList = cs at h
  induction cs with
  | nil => simp
  | cons c cs ih =>
    obtain ⟨hc, h⟩ := Bool.and_eq_true_iff.1 (List.all_cons ▸ h)
    have ih := ih h
    rw [List.cons_append]
    by_cases hblank : isBlank c = true
    · rw [lex_blank hblank, ih, List.filter_cons_of_neg (by simp [hblank])]
    · have hsym : c ∈ symbols := of_decide_eq_true ((Bool.or_eq_true_iff.1 hc).resolve_left hblank)
      rw [lex_sym hsym, ih, List.filter_cons_of_pos (by simp [hblank]), Option.map_map]
      rfl

theorem Lexes.nixStr (s : String) : Lexes (nixStr s) [.str s] := fun _ => lex_nixStr s

/-- A token that ends at the character `d`, before a text that begins with it. -/
theorem Lexes.before {d : Char} {t : Token}
    (htext : ∀ rest, lex (text.toList ++ d :: rest) = (lex (d :: rest)).map (t :: ·))
    (hhead : after.toList.head? = some d) (hafter : Lexes after ts) : Lexes (text ++ after) (t :: ts) := by
  obtain ⟨cs, hlist⟩ : ∃ cs, after.toList = d :: cs := by
    cases hcs : after.toList with
    | nil => rw [hcs] at hhead; cases hhead
    | cons c cs => rw [hcs] at hhead; cases hhead; exact ⟨cs, rfl⟩
  intro rest
  have hrest := hafter rest
  rw [hlist, List.cons_append] at hrest
  rw [String.toList_append, List.append_assoc, hlist, List.cons_append, htext, hrest, Option.map_map]
  rfl

/-- A name before a blank, of characters that need no escape if it is quoted. -/
theorem Lexes.name {name : String}
    (hname : isBareName name = true ∨ ∀ c ∈ name.toList, isAlnum c = true ∨ c = '-')
    (hhead : after.toList.head? = some ' ') (hafter : Lexes after ts) :
    Lexes (nixAttrName name ++ after) (nameToken name :: ts) := by
  unfold nixAttrName nameToken
  by_cases hbare : isBareName name = true
  · rw [if_pos hbare, if_pos hbare]
    exact Lexes.before (fun _ => lex_word hbare) hhead hafter
  · rw [if_neg hbare, if_neg hbare]
    have hquoted : "\"" ++ name ++ "\"" = Nixbox.Nix.nixStr name := by
      unfold Nixbox.Nix.nixStr
      rw [nixEscape_plain (hname.resolve_left hbare), String.ofList_toList]
    rw [hquoted]
    exact Lexes.before (fun _ => lex_nixStr name) hhead hafter

/-- Items with a blank between any two, and one behind the last. -/
theorem Lexes.items (item : α → String) (tok : α → Token)
    (hitem : ∀ a rest, lex ((item a).toList ++ ' ' :: rest) = (lex (' ' :: rest)).map (tok a :: ·))
    (hhead : after.toList.head? = some ' ') (hafter : Lexes after ts) :
    ∀ l : List α, Lexes (" ".intercalate (l.map item) ++ after) (l.map tok ++ ts)
  | [] => by simpa using hafter
  | [a] => by
    rw [List.map_singleton, String.intercalate_singleton]
    exact Lexes.before (hitem a) hhead hafter
  | a :: b :: l => by
    have hblank : Lexes " " [] := lexes_marks " " (by decide)
    rw [List.map_cons, List.map_cons, String.intercalate_cons_cons, String.append_assoc, String.append_assoc]
    exact Lexes.before (hitem a) (by simp) (hblank.append (Lexes.items item tok hitem hhead hafter (b :: l)))

end Lexes

/-! ## What is read -/

/-- The tokens of an expression are read as it, unless a name in it is reserved or bound twice. -/
theorem parseNix_tokens (e : Expr) : parseNix e.tokens = if e.readable then some e else none := by
  unfold parseNix
  rw [Frames.feedAll_tokens rfl]
  by_cases he : e.readable = true
  · rw [if_pos he, if_pos he]
    rfl
  · rw [if_neg he, if_neg he]

end Nixbox.Nix
