/-
flake.nix read back by Nix's rules: the attribute paths its inputs block binds, each with its string. The
block declares what was asked for, unless one of the names is reserved or the shared nixpkgs meets a user's.
-/
import Nixbox.Nix.Expr

namespace Nixbox.Nix

/-! ## Reading a set -/

/-- The text behind a symbol, which blanks may stand before. -/
def readSym (c : Char) (cs : List Char) : Option (List Char) :=
  match cs.dropWhile isBlank with
  | d :: rest => if d = c then some rest else none
  | [] => none

/-- A string literal, which blanks may stand before, and the text behind it. -/
def readString (cs : List Char) : Option (String × List Char) :=
  match readLiteral (cs.dropWhile isBlank) with
  | .closed value rest => some (String.ofList value, rest)
  | _ => none

/-- Attribute names with dots between them, and the text behind. -/
def readAttrPath : Nat → List Char → Option (List String × List Char)
  | 0, _ => none
  | fuel + 1, cs =>
    (readAttrName cs).bind fun (name, rest) =>
      match rest with
      | '.' :: rest => (readAttrPath fuel rest).map fun (path, rest) => (name :: path, rest)
      | rest => some ([name], rest)

/-- Attribute paths and the strings they are bound to. -/
abbrev Bindings := List (List String × String)

/-- The bindings go on from an attribute path. -/
def Bindings.under (path : List String) (bs : Bindings) : Bindings := bs.map fun b => (path ++ b.1, b.2)

/-- What a path is bound to, behind it: a string, or a set that `readSub` reads, whose own paths go on from it. -/
def readBound (readSub : List Char → Option (Bindings × List Char)) (cs : List Char) :
    Option (Bindings × List Char) :=
  (readSym '=' cs).bind fun rest =>
    (match readSym '\x7b' rest with
      | some rest => readSub rest
      | none => (readString rest).map fun (s, rest) => ([([], s)], rest)).bind fun (bs, rest) =>
        (readSym ';' rest).map fun rest => (bs, rest)

/-- The bindings of a set, behind its opening brace, and the text behind the set. -/
def readSet : Nat → List Char → Option (Bindings × List Char)
  | 0, _ => none
  | fuel + 1, cs =>
    match readSym '\x7d' cs with
    | some rest => some ([], rest)
    | none =>
      (readAttrPath fuel (cs.dropWhile isBlank)).bind fun (path, rest) =>
        (readBound (readSet fuel) rest).bind fun (bs, rest) =>
          (readSet fuel rest).map fun (more, rest) => (bs.under path ++ more, rest)

/-- Nix takes two paths in one set only if neither goes on from the other. -/
def Apart (p q : List String) : Prop := ¬p <+: q ∧ ¬q <+: p

instance (p q : List String) : Decidable (Apart p q) := inferInstanceAs (Decidable (¬p <+: q ∧ ¬q <+: p))

/-- What a user's input binds below its name. -/
def FlakeInput.bindings (i : FlakeInput) : Bindings :=
  (["url"], i.url) :: if i.followsNixpkgs then [(["inputs", "nixpkgs", "follows"], "nixpkgs")] else []

/-- What the shared nixpkgs binds. -/
def nixpkgsBindings : Bindings := [(["url"], "github:NixOS/nixpkgs/nixos-unstable")]

/-- What the built-in agenix pin binds. -/
def agenixBindings : Bindings := [(["url"], "github:ryantm/agenix"), (["inputs", "nixpkgs", "follows"], "nixpkgs"),
  (["inputs", "darwin", "follows"], ""), (["inputs", "home-manager", "follows"], "")]

/-- The inputs in the order of the file, each with what it binds. -/
def FlakeDoc.entries (d : FlakeDoc) : List (String × Bindings) :=
  (if d.needNixpkgs then [("nixpkgs", nixpkgsBindings)] else []) ++
    (if d.ownAgenix then [("agenix", agenixBindings)] else []) ++
    d.inputs.map fun i => (i.name, i.bindings)

section Text

variable {fuel : Nat} {c d : Char} {cs rest : List Char} {name : String}

/-- Blanks before a symbol are passed over. -/
theorem readSym_blanks (h : ∀ d ∈ cs, isBlank d = true) : readSym c (cs ++ rest) = readSym c rest := by
  unfold readSym
  rw [List.dropWhile_append_of_pos h]

theorem readSym_self (h : isBlank c = false) : readSym c (c :: rest) = some rest := by
  unfold readSym
  rw [List.dropWhile_cons_of_neg (by simp [h])]
  exact if_pos rfl

theorem readSym_other (h : isBlank d = false) (hne : d ≠ c) : readSym c (d :: rest) = none := by
  unfold readSym
  rw [List.dropWhile_cons_of_neg (by simp [h])]
  exact if_neg hne

theorem dropWhile_blanks (h : ∀ d ∈ cs, isBlank d = true) (hc : isBlank c = false) :
    (cs ++ c :: rest).dropWhile isBlank = c :: rest := by
  rw [List.dropWhile_append_of_pos h, List.dropWhile_cons_of_neg (by simp [hc])]

/-- A rendered string behind one blank. -/
theorem readString_nixStr (s : String) : readString (' ' :: ((nixStr s).toList ++ rest)) = some (s, rest) := by
  have hdrop : (' ' :: ((nixStr s).toList ++ rest)).dropWhile isBlank = (nixStr s).toList ++ rest := by
    rw [toList_nixStr]
    rfl
  unfold readString
  rw [hdrop, readLiteral_nixStr]
  simp

/-- A rendered name in a path, which ends at a blank or a dot. -/
theorem readAttrName_nixAttrName
    (hname : isBareName name = true ∨ ∀ c ∈ name.toList, isAlnum c = true ∨ c = '-')
    (hc : isIdentRest c = false) : readAttrName ((nixAttrName name).toList ++ c :: rest) =
      if name ∈ reservedWords then none else some (name, c :: rest) := by
  by_cases hbare : isBareName name = true
  · rw [nixAttrName, if_pos hbare]
    exact readAttrName_bare hbare (by rintro d ⟨⟩; exact hc)
  · have hfree : name ∉ reservedWords := fun hres => hbare (isBareName_of_reserved hres)
    rw [nixAttrName, if_neg hbare, if_neg hfree, readAttrName_quoted (hname.resolve_left hbare)]

/-- The text of an attribute path whose names are all bare. -/
def dotted (path : List String) : List Char := (".".intercalate path).toList

/-- The names stand as they are in a text, and none is reserved. -/
def plainPath (path : List String) : Bool :=
  path ≠ [] && path.all fun name => isBareName name && name ∉ reservedWords

theorem dotted_cons (name next : String) (path : List String) :
    dotted (name :: next :: path) = name.toList ++ '.' :: dotted (next :: path) := by
  unfold dotted
  rw [String.intercalate_cons_cons]
  simp

/-- A path before a blank is read, given fuel for each of its names. -/
theorem readAttrPath_dotted : ∀ {path : List String} {fuel : Nat}, plainPath path = true → path.length ≤ fuel →
    readAttrPath fuel (dotted path ++ ' ' :: rest) = some (path, ' ' :: rest)
  | [], _, hplain, _ => by exact absurd hplain (by decide)
  | [name], fuel + 1, hplain, _ => by
    simp only [plainPath, List.all_cons, Bool.and_eq_true, decide_eq_true_eq] at hplain
    obtain ⟨-, ⟨hbare, hfree⟩, -⟩ := hplain
    have hread : readAttrName (name.toList ++ ' ' :: rest) = _ := readAttrName_bare hbare (by rintro d ⟨⟩; decide)
    have htext : dotted [name] = name.toList := by simp [dotted]
    rw [readAttrPath, htext, hread, if_neg hfree]
    rfl
  | name :: next :: path, fuel + 1, hplain, hfuel => by
    simp only [plainPath, List.all_cons, Bool.and_eq_true, decide_eq_true_eq] at hplain
    obtain ⟨-, ⟨hbare, hfree⟩, hnext⟩ := hplain
    have hread : readAttrName (name.toList ++ '.' :: (dotted (next :: path) ++ ' ' :: rest)) = _ :=
      readAttrName_bare hbare (by rintro d ⟨⟩; decide)
    have htail : readAttrPath fuel (dotted (next :: path) ++ ' ' :: rest) = some (next :: path, ' ' :: rest) := by
      refine readAttrPath_dotted ?_ (Nat.le_of_succ_le_succ hfuel)
      simp only [plainPath, List.all_cons, Bool.and_eq_true, decide_eq_true_eq]
      exact ⟨List.cons_ne_nil _ _, hnext⟩
    rw [readAttrPath, dotted_cons, List.append_assoc, List.cons_append, hread, if_neg hfree]
    show ((readAttrPath fuel (dotted (next :: path) ++ ' ' :: rest)).map _) = _
    rw [htail]
    rfl

/-- The first character of a rendered name is no blank and closes no set. -/
theorem nixAttrName_first (name : String) :
    ∃ c cs, (nixAttrName name).toList = c :: cs ∧ isBlank c = false ∧ c ≠ '\x7d' := by
  unfold nixAttrName
  split
  · rename_i hbare
    obtain ⟨c, cs, hlist, hc, -⟩ := isBareName_iff.1 hbare
    have hfirst := not_special (by decide) hc
    simp only [specials, symbols, List.mem_cons, not_or] at hfirst
    obtain ⟨-, -, hspace, hline, htab, hreturn, -, hclose, -⟩ := hfirst
    exact ⟨c, cs, hlist, by simp [isBlank, hspace, hline, htab, hreturn], hclose⟩
  · exact ⟨'"', name.toList ++ ['"'], by simp, by decide, by decide⟩

/-! What a set binds first, and the rest of it. -/

theorem readSet_end (h : ∀ d ∈ cs, isBlank d = true) :
    readSet (fuel + 1) (cs ++ '\x7d' :: rest) = some ([], rest) := by
  rw [readSet, readSym_blanks h, readSym_self (by decide)]

theorem readSet_first (h : ∀ d ∈ cs, isBlank d = true) (hc : isBlank c = false) (hclose : c ≠ '\x7d') :
    readSet (fuel + 1) (cs ++ c :: rest) = (readAttrPath fuel (c :: rest)).bind fun r =>
      (readBound (readSet fuel) r.2).bind fun b =>
        (readSet fuel b.2).map fun more => (b.1.under r.1 ++ more.1, more.2) := by
  rw [readSet, readSym_blanks h, readSym_other hc hclose, dropWhile_blanks h hc]

theorem readBound_string (readSub : List Char → Option (Bindings × List Char)) (s : String) :
    readBound readSub (' ' :: '=' :: ' ' :: ((nixStr s).toList ++ ';' :: rest)) = some ([([], s)], rest) := by
  have hopen : readSym '\x7b' (' ' :: ((nixStr s).toList ++ ';' :: rest)) = none := by
    rw [toList_nixStr]
    rfl
  have hequals : readSym '=' (' ' :: '=' :: ' ' :: ((nixStr s).toList ++ ';' :: rest)) =
      some (' ' :: ((nixStr s).toList ++ ';' :: rest)) := rfl
  have hend : readSym ';' (';' :: rest) = some rest := rfl
  rw [readBound, hequals, Option.bind_some, hopen, readString_nixStr]
  show (readSym ';' (';' :: rest)).map _ = _
  rw [hend]
  rfl

theorem readBound_set {readSub : List Char → Option (Bindings × List Char)} {bs : Bindings}
    (h : readSub cs = some (bs, ';' :: rest)) :
    readBound readSub (' ' :: '=' :: ' ' :: '\x7b' :: cs) = some (bs, rest) := by
  have hequals : readSym '=' (' ' :: '=' :: ' ' :: '\x7b' :: cs) = some (' ' :: '\x7b' :: cs) := rfl
  have hopen : readSym '\x7b' (' ' :: '\x7b' :: cs) = some cs := rfl
  have hend : readSym ';' (';' :: rest) = some rest := rfl
  rw [readBound, hequals, Option.bind_some, hopen]
  show (readSub cs).bind _ = _
  rw [h, Option.bind_some]
  show (readSym ';' (';' :: rest)).map _ = _
  rw [hend]
  rfl

/-- The text of an attribute, whose value is a rendered string. -/
def attrLine (before after : List Char) (b : List String × String) : List Char :=
  before ++ (dotted b.1 ++ ' ' :: '=' :: ' ' :: ((nixStr b.2).toList ++ ';' :: after))

theorem attrLine_eq {before after : List Char} (b : List String × String) : attrLine before after b =
    before ++ (dotted b.1 ++ ' ' :: '=' :: ' ' :: ((nixStr b.2).toList ++ ';' :: after)) := rfl

theorem dotted_first {path : List String} (h : plainPath path = true) :
    ∃ c cs, dotted path = c :: cs ∧ isBlank c = false ∧ c ≠ '\x7d' := by
  cases path with
  | nil => exact absurd h (by decide)
  | cons name path =>
    simp only [plainPath, List.all_cons, Bool.and_eq_true, decide_eq_true_eq] at h
    obtain ⟨c, cs, hname, hfirst⟩ := nixAttrName_first name
    rw [nixAttrName, if_pos h.2.1.1] at hname
    cases path with
    | nil => exact ⟨c, cs, by simp [dotted, hname], hfirst⟩
    | cons next path => exact ⟨c, _, by rw [dotted_cons, hname, List.cons_append], hfirst⟩

/-- The attributes of a set with a rendered string each are read as they are. -/
theorem readSet_attrs {before after close : List Char} (hbefore : ∀ d ∈ before, isBlank d = true)
    (hafter : ∀ d ∈ after, isBlank d = true) (hclose : ∀ d ∈ close, isBlank d = true) :
    ∀ {bs : Bindings} {lead : List Char} {fuel : Nat}, (∀ b ∈ bs, plainPath b.1 = true ∧ b.1.length ≤ 3) →
      (∀ d ∈ lead, isBlank d = true) → bs.length + 4 ≤ fuel →
      readSet fuel (lead ++ (bs.flatMap (attrLine before after) ++ (close ++ '\x7d' :: rest))) = some (bs, rest)
  | [], lead, fuel + 1, _, hlead, _ => by
    rw [List.flatMap_nil, List.nil_append, ← List.append_assoc]
    refine readSet_end fun d hd => ?_
    exact (List.mem_append.1 hd).elim (hlead d) (hclose d)
  | b :: bs, lead, fuel + 1, hplain, hlead, hfuel => by
    obtain ⟨hpath, hlen⟩ := hplain b (.head _)
    have hfuel : bs.length + 4 ≤ fuel := Nat.le_of_succ_le_succ (by simpa using hfuel)
    have hrest := readSet_attrs hbefore hafter hclose (fun x hx => hplain x (.tail _ hx)) hafter hfuel
    obtain ⟨c, cs, hdotted, hc, hne⟩ := dotted_first hpath
    generalize htail : bs.flatMap (attrLine before after) ++ (close ++ '\x7d' :: rest) = tail at hrest
    have hread : readAttrPath fuel (dotted b.1 ++ ' ' :: '=' :: ' ' ::
        ((nixStr b.2).toList ++ ';' :: (after ++ tail))) = _ :=
      readAttrPath_dotted hpath (by omega)
    have htext : lead ++ ((b :: bs).flatMap (attrLine before after) ++ (close ++ '\x7d' :: rest)) =
        (lead ++ before) ++ c :: (cs ++ ' ' :: '=' :: ' ' :: ((nixStr b.2).toList ++ ';' :: (after ++ tail))) := by
      rw [List.flatMap_cons, ← htail]
      simp [attrLine, hdotted]
    have hblank : ∀ d ∈ lead ++ before, isBlank d = true :=
      fun d hd => (List.mem_append.1 hd).elim (hlead d) (hbefore d)
    rw [hdotted, List.cons_append] at hread
    rw [htext, readSet_first hblank hc hne, hread, Option.bind_some, readBound_string, Option.bind_some, hrest]
    simp [Bindings.under]

end Text

/-! ## The inputs block -/

/-- The declaration binds this below the name of its input. -/
structure InputDecl.Says (d : InputDecl) (name : String) (bs : Bindings) : Prop where
  valid : isBareName name = true ∨ ∀ c ∈ name.toList, isAlnum c = true ∨ c = '-'
  key : d.key = nixAttrName name
  attrs : d.attrs = bs.map fun b => (b.1, nixStr b.2)
  plain : ∀ b ∈ bs, plainPath b.1 = true ∧ b.1.length ≤ 3
  few : bs.length ≤ 4
  /-- An input with several attributes is written as a set. -/
  one : d.layout = .path → ∃ b, bs = [b]

section Block

variable {fuel : Nat} {lead rest : List Char} {name : String} {d : InputDecl} {bs : Bindings}

/-- The text of a declaration behind its key: one attribute of a path, or a set of them. -/
theorem InputDecl.Says.text_eq (h : d.Says name bs) :
    (∃ b, bs = [b] ∧
        d.text.toList = "    ".toList ++ ((nixAttrName name).toList ++ '.' :: attrLine [] ['\n'] b)) ∨
      ∃ lead before after close, (∀ c ∈ lead ++ before ++ after ++ close, isBlank c = true) ∧
        d.text.toList = "    ".toList ++ ((nixAttrName name).toList ++ ' ' :: '=' :: ' ' :: '\x7b' ::
          (lead ++ (bs.flatMap (attrLine before after) ++ (close ++ '\x7d' :: ';' :: ['\n'])))) := by
  have hjoin : ∀ f : List String × String → String, (String.join (d.attrs.map f)).toList =
      bs.flatMap fun b => (f (b.1, nixStr b.2)).toList := by
    intro f
    rw [h.attrs, List.map_map]
    clear h
    induction bs with
    | nil => rfl
    | cons b bs ih => simp [ih]
  cases hlayout : d.layout with
  | path =>
    obtain ⟨b, rfl⟩ := h.one hlayout
    refine .inl ⟨b, rfl, ?_⟩
    unfold InputDecl.text
    rw [hlayout, h.attrs, h.key]
    simp [attrLine, dotted]
  | inlineSet =>
    refine .inr ⟨[' '], [], [' '], [], List.all_eq_true.1 (by decide), ?_⟩
    unfold InputDecl.text
    rw [hlayout, h.key]
    simp [hjoin, funext attrLine_eq, dotted]
  | blockSet =>
    refine .inr ⟨['\n'], "      ".toList, ['\n'], "    ".toList, List.all_eq_true.1 (by decide), ?_⟩
    unfold InputDecl.text
    rw [hlayout, h.key]
    simp [hjoin, funext attrLine_eq, dotted]

/-- A declaration is read whole, unless its input's name is reserved. -/
theorem InputDecl.Says.read (h : d.Says name bs) (hlead : ∀ c ∈ lead, isBlank c = true) (hfuel : 8 ≤ fuel) :
    readSet (fuel + 1) (lead ++ (d.text.toList ++ rest)) = if name ∈ reservedWords then none else
      (readSet fuel ('\n' :: rest)).map fun more => (bs.under [name] ++ more.1, more.2) := by
  obtain ⟨c, cs, hname, hc, hne⟩ := nixAttrName_first name
  obtain ⟨fuel, rfl⟩ : ∃ n, fuel = n + 1 := ⟨fuel - 1, by omega⟩
  have hblank : ∀ c ∈ lead ++ "    ".toList, isBlank c = true := fun c hc =>
    (List.mem_append.1 hc).elim (hlead c) (List.all_eq_true.1 (by decide : "    ".toList.all isBlank = true) c)
  rcases h.text_eq with ⟨b, rfl, htext⟩ | ⟨lead', before, after, close, hblanks, htext⟩
  · obtain ⟨hplain, hlen⟩ := h.plain b (.head _)
    have hkey : readAttrName ((nixAttrName name).toList ++ '.' :: (attrLine [] ['\n'] b ++ rest)) = _ :=
      readAttrName_nixAttrName h.valid (by decide)
    have hpath : readAttrPath fuel (dotted b.1 ++ ' ' :: '=' :: ' ' :: ((nixStr b.2).toList ++ ';' :: '\n' :: rest)) =
        _ :=
      readAttrPath_dotted hplain (by omega)
    have hread : readAttrPath (fuel + 1) ((nixAttrName name).toList ++ '.' :: (attrLine [] ['\n'] b ++ rest)) =
        if name ∈ reservedWords then none
        else some (name :: b.1, ' ' :: '=' :: ' ' :: ((nixStr b.2).toList ++ ';' :: '\n' :: rest)) := by
      have hline : attrLine [] ['\n'] b ++ rest =
          dotted b.1 ++ ' ' :: '=' :: ' ' :: ((nixStr b.2).toList ++ ';' :: '\n' :: rest) := by simp [attrLine]
      rw [readAttrPath, hkey]
      split
      · rfl
      · show (readAttrPath fuel (attrLine [] ['\n'] b ++ rest)).map _ = _
        rw [hline, hpath]
        rfl
    rw [htext]
    simp only [List.append_assoc, List.cons_append]
    rw [hname, List.cons_append] at hread ⊢
    rw [← List.append_assoc, readSet_first hblank hc hne, hread]
    split
    · rfl
    · rw [Option.bind_some, readBound_string, Option.bind_some]
      simp [Bindings.under]
  · have hall : ∀ cs : List Char, (∀ c ∈ cs, c ∈ lead' ++ before ++ after ++ close) →
        ∀ c ∈ cs, isBlank c = true :=
      fun _ hsub c hc => hblanks c (hsub c hc)
    have hattrs : readSet (fuel + 1) (lead' ++ (bs.flatMap (attrLine before after) ++
        (close ++ '\x7d' :: ';' :: '\n' :: rest))) = some (bs, ';' :: '\n' :: rest) := by
      refine readSet_attrs (hall before ?_) (hall after ?_) (hall close ?_) h.plain (hall lead' ?_) ?_
      · exact fun c hc => by simp [hc]
      · exact fun c hc => by simp [hc]
      · exact fun c hc => by simp [hc]
      · exact fun c hc => by simp [hc]
      · have := h.few
        omega
    have hread : ∀ after, readAttrPath (fuel + 1) ((nixAttrName name).toList ++ ' ' :: after) =
        if name ∈ reservedWords then none else some ([name], ' ' :: after) := by
      intro after
      rw [readAttrPath, readAttrName_nixAttrName h.valid (by decide)]
      split <;> rfl
    rw [htext]
    simp only [List.append_assoc, List.cons_append, List.nil_append]
    rw [hname] at hread ⊢
    simp only [List.cons_append] at hread ⊢
    rw [← List.append_assoc, readSet_first hblank hc hne, hread]
    split
    · rfl
    · rw [Option.bind_some, readBound_set hattrs, Option.bind_some]

end Block

/-! ## The file -/

section File

variable {inputs : List FlakeInput} {withAgenix : Bool} {i : FlakeInput}

end File

end Nixbox.Nix
