/-
index.nix read back as a Nix expression: the attribute set it was written for, unless a name it binds is
a reserved word.
-/
import Nixbox.Nix.Expr
import Nixbox.Nix.Index

namespace Nixbox.Nix

/-! ## What the file says -/

/-- The path of a secret's file, as index.nix has it. -/
def secretPath (name : String) : String := "./secrets/" ++ name ++ ".age"

/-- A section as it is read. -/
def sectionExpr (s : String × List String) : String × Expr :=
  (s.1, .attrs (s.2.map fun name => (name, .path (workloadPath name))))

/-- The mounts under a key as they are read. -/
def mountExpr (m : String × List String) : String × Expr := (m.1, .list (m.2.map .str))

/-- A secret as it is read. -/
def IndexSecret.expr (s : IndexSecret) : String × Expr :=
  (s.name, .attrs [("file", .path (secretPath s.name)), ("owner", .str s.owner), ("group", .str s.group),
    ("mode", .str s.mode), ("mounts", .attrs (s.mounts.map mountExpr))])

/-- What index.nix says, attribute by attribute. -/
def IndexDoc.attrs (d : IndexDoc) : List (String × Expr) :=
  d.sections.map sectionExpr ++
    [("hostPorts", .attrs [("tcp", .list (d.tcp.map .int)), ("udp", .list (d.udp.map .int))]),
      ("secrets", .attrs (d.secrets.map IndexSecret.expr))]

/-- The attribute set index.nix stands for. -/
def IndexDoc.expr (d : IndexDoc) : Expr := .attrs d.attrs

/-- The names of the file are fit to be written: keys bare, the others valid. -/
structure IndexDoc.Named (d : IndexDoc) : Prop where
  keys : ∀ s ∈ d.sections, isBareName s.1 = true
  names : ∀ s ∈ d.sections, ∀ name ∈ s.2, validateName name = .ok ()
  secrets : ∀ s ∈ d.secrets, validateName s.name = .ok ()
  mounts : ∀ s ∈ d.secrets, ∀ m ∈ s.mounts, isBareName m.1 = true

/-! ## The tokens of the text -/

section Texts

variable {name : String}

theorem validateName_chars (h : validateName name = .ok ()) : ∀ c ∈ name.toList, isAlnum c = true ∨ c = '-' :=
  nameRe_chars (validateName_ok.1 h)

theorem isPathChar_of_name {c : Char} (h : isAlnum c = true ∨ c = '-') : isPathChar c = true := by
  rcases h with h | rfl
  · have halnum : c.isAlphanum = true := by
      unfold isAlnum at h
      unfold Char.isAlphanum Char.isAlpha Char.isLower Char.isDigit
      simp only [Bool.or_eq_true, Bool.and_eq_true, decide_eq_true_eq] at h ⊢
      rcases h with ⟨hlo, hhi⟩ | ⟨hlo, hhi⟩
      · exact .inl (.inr ⟨hlo, hhi⟩)
      · exact .inr ⟨hlo, hhi⟩
    unfold isPathChar
    rw [halnum]
    rfl
  · rfl

theorem attrsTokens_append (bs cs : List (String × Expr)) :
    attrsTokens (bs ++ cs) = attrsTokens bs ++ attrsTokens cs := by
  induction bs with
  | nil => rw [attrsTokens]; rfl
  | cons b bs ih =>
    obtain ⟨name, e⟩ := b
    rw [List.cons_append, attrsTokens, attrsTokens, ih]
    simp

theorem attrsTokens_map {α : Type} (f : α → String × Expr) (l : List α) :
    attrsTokens (l.map f) = l.flatMap fun a => attrsTokens [f a] := by
  induction l with
  | nil => rw [List.map_nil, attrsTokens]; rfl
  | cons a l ih => rw [List.map_cons, List.flatMap_cons, ← ih, ← attrsTokens_append]; rfl

theorem listTokens_map {α : Type} {f : α → Expr} {tok : α → Token} (hf : ∀ a, (f a).tokens = [tok a])
    (l : List α) : listTokens (l.map f) = l.map tok := by
  induction l with
  | nil => rw [List.map_nil, listTokens]; rfl
  | cons a l ih => rw [List.map_cons, listTokens, hf, ih]; rfl

theorem name_segment (h : validateName name = .ok ()) :
    name.toList ≠ [] ∧ ∀ c ∈ name.toList, isPathChar c = true := by
  refine ⟨fun hnil => ?_, fun c hc => isPathChar_of_name (validateName_chars h c hc)⟩
  have hre := validateName_ok.1 h
  unfold nameRe at hre
  rw [hnil] at hre
  cases hre

/-- A segment of a path that is fixed. -/
def isSegment (s : List Char) : Bool := s ≠ [] && s.all isPathChar

theorem isSegment_spec {s : List Char} (h : isSegment s = true) : s ≠ [] ∧ ∀ c ∈ s, isPathChar c = true := by
  obtain ⟨hne, hall⟩ := Bool.and_eq_true_iff.1 h
  exact ⟨of_decide_eq_true hne, List.all_eq_true.1 hall⟩

/-- The path of a workload, before the end of its binding. -/
theorem lex_workloadPath (h : validateName name = .ok ()) (rest : List Char) :
    lex ((workloadPath name).toList ++ ';' :: rest) = (lex (';' :: rest)).map (.path (workloadPath name) :: ·) := by
  have hsplit : (workloadPath name).toList =
      List.intercalate ['/'] [".".toList, "workloads".toList, name.toList, "workload.nix".toList] := by
    simp [workloadPath, List.intercalate_cons_cons]
  refine lex_path hsplit (by simp) ?_
  simp only [List.forall_mem_cons]
  exact ⟨isSegment_spec (by decide), isSegment_spec (by decide), name_segment h, isSegment_spec (by decide), nofun⟩

/-- The path of a secret, before the end of its binding. -/
theorem lex_secretPath (h : validateName name = .ok ()) (rest : List Char) :
    lex ((secretPath name).toList ++ ';' :: rest) = (lex (';' :: rest)).map (.path (secretPath name) :: ·) := by
  have hsplit : (secretPath name).toList =
      List.intercalate ['/'] [".".toList, "secrets".toList, name.toList ++ ".age".toList] := by
    simp [secretPath, List.intercalate_cons_cons]
  refine lex_path hsplit (by simp) ?_
  simp only [List.forall_mem_cons, List.forall_mem_append]
  have hsuffix : isSegment ".age".toList = true := by decide
  exact ⟨isSegment_spec (by decide), isSegment_spec (by decide),
    ⟨by simp, (name_segment h).2, (isSegment_spec hsuffix).2⟩, nofun⟩

theorem lexes_open : Lexes " = \x7b\n" [.sym '=', .sym '\x7b'] := lexes_marks " = \x7b\n" (by decide)

theorem lexes_equals : Lexes " = " [.sym '='] := lexes_marks " = " (by decide)

theorem lexes_end : Lexes ";\n" [.sym ';'] := lexes_marks ";\n" (by decide)

theorem lexes_close : Lexes "\x7d;\n" [.sym '\x7d', .sym ';'] := lexes_marks "\x7d;\n" (by decide)

theorem sectionText_lexes {s : String × List String} (hkey : isBareName s.1 = true)
    (hnames : ∀ name ∈ s.2, validateName name = .ok ()) : Lexes (sectionText s) (attrsTokens [sectionExpr s]) := by
  obtain ⟨key, names⟩ := s
  have hline : ∀ name ∈ names, Lexes ("    " ++ nixAttrName name ++ " = " ++ workloadPath name ++ ";\n")
      (attrsTokens [(name, .path (workloadPath name))]) := by
    intro name hname
    have hvalid := hnames name hname
    have hpath := Lexes.before (lex_workloadPath hvalid) (by decide) lexes_end
    have hindent : Lexes "    " [] := lexes_marks "    " (by decide)
    simp only [String.append_assoc]
    exact hindent.append (Lexes.name (.inr (validateName_chars hvalid)) (by simp) (lexes_equals.append hpath))
  have hlines := Lexes.join hline
  rw [← attrsTokens_map] at hlines
  have hindent : Lexes "  " [] := lexes_marks "  " (by decide)
  have hbody := lexes_open.append (hlines.append (hindent.append lexes_close))
  have hname := Lexes.name (.inl hkey) (by simp) hbody
  rw [nixAttrName, if_pos hkey] at hname
  have htext := hindent.append hname
  have hsplit : sectionText (key, names) = "  " ++ (key ++ (" = \x7b\n" ++ (String.join (names.map fun name =>
      "    " ++ nixAttrName name ++ " = " ++ workloadPath name ++ ";\n") ++ ("  " ++ "\x7d;\n")))) := by
    simp [sectionText, sectionBindings, String.append_assoc, Function.comp_def]
  have htokens : attrsTokens [sectionExpr (key, names)] = nameToken key :: ([.sym '=', .sym '\x7b'] ++
      (attrsTokens (names.map fun name => (name, .path (workloadPath name))) ++ [.sym '\x7d', .sym ';'])) := by
    simp [attrsTokens, sectionExpr, Expr.tokens]
  rw [hsplit, htokens]
  exact htext

/-- The attribute of a fixed name. -/
theorem lexes_attr (indent word : String) (hindent : indent.toList.all isBlank = true)
    (hword : isBareName word = true) :
    Lexes (indent ++ (word ++ " = ")) [.word word, .sym '='] := by
  have hblank : (indent.toList.filter fun c => !isBlank c) = [] := by
    rw [List.filter_eq_nil_iff]
    intro c hc
    simp [List.all_eq_true.1 hindent c hc]
  have hmarks := lexes_marks indent <| List.all_eq_true.2 fun c hc => by
    rw [List.all_eq_true.1 hindent c hc, Bool.true_or]
  rw [hblank] at hmarks
  exact hmarks.append (Lexes.before (fun _ => lex_word hword) (by simp) lexes_equals)

theorem mountText_lexes {m : String × List String} (hkey : isBareName m.1 = true) :
    Lexes ("        " ++ m.1 ++ " = [ " ++ " ".intercalate (m.2.map nixStr) ++ " ];\n")
    (attrsTokens [mountExpr m]) := by
  have hindent : Lexes "        " [] := lexes_marks "        " (by decide)
  have hopen : Lexes " = [ " [.sym '=', .sym '['] := lexes_marks " = [ " (by decide)
  have hclose : Lexes " ];\n" [.sym ']', .sym ';'] := lexes_marks " ];\n" (by decide)
  have hitems := Lexes.items nixStr .str (fun s _ => lex_nixStr s) (by decide) hclose m.2
  have htext := hindent.append (Lexes.name (.inl hkey) (by simp) (hopen.append hitems))
  rw [nixAttrName, if_pos hkey] at htext
  have htokens : attrsTokens [mountExpr m] =
      nameToken m.1 :: ([.sym '=', .sym '['] ++ (m.2.map .str ++ [.sym ']', .sym ';'])) := by
    have hitems : listTokens (m.2.map Expr.str) = m.2.map .str := listTokens_map (fun s => by rw [Expr.tokens]) _
    simp [attrsTokens, mountExpr, Expr.tokens, hitems]
  rw [htokens]
  simp only [String.append_assoc]
  exact htext

theorem IndexSecret.text_lexes {s : IndexSecret} (hname : validateName s.name = .ok ())
    (hmounts : ∀ m ∈ s.mounts, isBareName m.1 = true) : Lexes s.text (attrsTokens [s.expr]) := by
  have hindent : Lexes "    " [] := lexes_marks "    " (by decide)
  have hfile : Lexes ("      file = ./secrets/" ++ (s.name ++ ".age;\n"))
      [.word "file", .sym '=', .path (secretPath s.name), .sym ';'] := by
    have hsplit : "      file = ./secrets/" ++ (s.name ++ ".age;\n") =
        "      " ++ ("file" ++ " = ") ++ (secretPath s.name ++ ";\n") := by
      simp [← String.toList_inj, secretPath]
    rw [hsplit]
    have hpath := Lexes.before (lex_secretPath hname) (by decide) lexes_end
    exact (lexes_attr "      " "file" (by decide) (by decide)).append hpath
  have howner : Lexes ("      owner = " ++ (nixStr s.owner ++ ";\n")) [.word "owner", .sym '=',
      .str s.owner, .sym ';'] :=
    ((lexes_attr "      " "owner" (by decide) (by decide)).append ((Lexes.nixStr s.owner).append lexes_end)).of_eq
      (by simp) rfl
  have hgroup : Lexes ("      group = " ++ (nixStr s.group ++ ";\n")) [.word "group", .sym '=',
      .str s.group, .sym ';'] :=
    ((lexes_attr "      " "group" (by decide) (by decide)).append ((Lexes.nixStr s.group).append lexes_end)).of_eq
      (by simp) rfl
  have hmode : Lexes ("      mode = " ++ (nixStr s.mode ++ ";\n")) [.word "mode", .sym '=', .str s.mode, .sym ';'] :=
    ((lexes_attr "      " "mode" (by decide) (by decide)).append ((Lexes.nixStr s.mode).append lexes_end)).of_eq
      (by simp) rfl
  have hset : Lexes "      mounts = \x7b\n" [.word "mounts", .sym '=', .sym '\x7b'] :=
    ((lexes_attr "      " "mounts" (by decide) (by decide)).append (lexes_marks "\x7b\n" (by decide))).of_eq (by simp)
      rfl
  have hlines := Lexes.join fun m hm => mountText_lexes (hmounts m hm)
  rw [← attrsTokens_map] at hlines
  have hclose : Lexes "      \x7d;\n    \x7d;\n" [.sym '\x7d', .sym ';', .sym '\x7d', .sym ';'] :=
    lexes_marks _ (by decide)
  have hbody := lexes_open.append
    (hfile.append (howner.append (hgroup.append (hmode.append (hset.append (hlines.append hclose))))))
  have htext := hindent.append (Lexes.name (.inr (validateName_chars hname)) (by simp) hbody)
  have hfixed : nameToken "file" = .word "file" ∧ nameToken "owner" = .word "owner" ∧
    nameToken "group" = .word "group" ∧
      nameToken "mode" = .word "mode" ∧ nameToken "mounts" = .word "mounts" := by decide
  unfold IndexSecret.text
  simp only [String.append_assoc] at htext ⊢
  refine htext.of_eq rfl ?_
  simp only [attrsTokens, IndexSecret.expr, Expr.tokens, hfixed, List.cons_append, List.nil_append, List.append_assoc]

theorem nixIntList_lexes (xs : List Nat) : Lexes (nixIntList xs) (.sym '[' :: (xs.map .int ++ [.sym ']'])) := by
  have hclose : Lexes " ]" [.sym ']'] := lexes_marks " ]" (by decide)
  unfold nixIntList
  split
  · rename_i hnil
    rw [List.isEmpty_iff.1 hnil]
    exact lexes_marks "[ ]" (by decide)
  · have hopen : Lexes "[ " [.sym '['] := lexes_marks "[ " (by decide)
    have hitems := Lexes.items toString .int (fun n _ => lex_nat n) (by decide) hclose xs
    rw [String.append_assoc]
    exact hopen.append hitems

/-- The text of a document is the tokens of its expression. -/
theorem IndexDoc.lex_text {d : IndexDoc} (hd : d.Named) : lex d.text.toList = some d.expr.tokens := by
  have hsections := Lexes.join fun s hs => sectionText_lexes (hd.keys s hs) (hd.names s hs)
  have hsecrets := Lexes.join fun s hs => IndexSecret.text_lexes (hd.secrets s hs) (hd.mounts s hs)
  rw [← attrsTokens_map] at hsections hsecrets
  have hports : Lexes "  hostPorts = \x7b\n    tcp = " [.word "hostPorts", .sym '=', .sym '\x7b',
      .word "tcp", .sym '='] :=
    ((lexes_attr "  " "hostPorts" (by decide) (by decide)).append
      ((lexes_marks "\x7b\n" (by decide)).append (lexes_attr "    " "tcp" (by decide) (by decide)))).of_eq (by simp) rfl
  have hudp : Lexes ";\n    udp = " [.sym ';', .word "udp", .sym '='] :=
    (lexes_end.append (lexes_attr "    " "udp" (by decide) (by decide))).of_eq (by simp) rfl
  have hclose : Lexes ";\n  \x7d;\n" [.sym ';', .sym '\x7d', .sym ';'] := lexes_marks _ (by decide)
  have hset : Lexes "  secrets = \x7b\n" [.word "secrets", .sym '=', .sym '\x7b'] :=
    ((lexes_attr "  " "secrets" (by decide) (by decide)).append (lexes_marks "\x7b\n" (by decide))).of_eq (by simp) rfl
  have hend : Lexes ("  \x7d;\n" ++ "\x7d\n") [.sym '\x7d', .sym ';', .sym '\x7d'] := lexes_marks _ (by decide)
  have hopen : Lexes "\x7b\n" [.sym '\x7b'] := lexes_marks _ (by decide)
  have hbody := hopen.append (hsections.append (hports.append ((nixIntList_lexes d.tcp).append (hudp.append
    ((nixIntList_lexes d.udp).append (hclose.append (hset.append (hsecrets.append hend))))))))
  have hfixed : nameToken "hostPorts" = .word "hostPorts" ∧ nameToken "tcp" = .word "tcp" ∧
    nameToken "udp" = .word "udp" ∧
      nameToken "secrets" = .word "secrets" := by decide
  have hints : ∀ xs : List Nat, listTokens (xs.map Expr.int) = xs.map .int :=
    listTokens_map fun n => by rw [Expr.tokens]
  have hhead : "# Generated by nixbox; do not edit.\n\x7b\n" = "# Generated by nixbox; do not edit.\n" ++ "\x7b\n" :=
    rfl
  have hcomment : "# Generated by nixbox; do not edit.\n".toList =
      '#' :: (" Generated by nixbox; do not edit.".toList ++ ['\n']) := by
    decide
  have hline : " Generated by nixbox; do not edit.".toList.all (fun c => c != '\n' && c != '\r') = true := by decide
  unfold IndexDoc.text
  rw [hhead]
  simp only [String.append_assoc] at hbody ⊢
  rw [String.toList_append, hcomment, List.cons_append, List.append_assoc, List.singleton_append,
    lex_comment (List.all_eq_true.1 hline), lex_blank (by decide), hbody.lex_eq, Option.some.injEq]
  simp only [IndexDoc.expr, IndexDoc.attrs, Expr.tokens, attrsTokens, attrsTokens_append, hfixed,
    hints, List.cons_append, List.nil_append, List.append_assoc]

end Texts

/-! ## What is read -/

theorem readableAttrs_iff : ∀ {bs : List (String × Expr)}, readableAttrs bs = true ↔
    ∀ b ∈ bs, b.1 ∉ reservedWords ∧ b.2.readable = true
  | [] => by simp [readableAttrs]
  | (name, e) :: bs => by
    rw [readableAttrs, Bool.and_eq_true, Bool.and_eq_true, decide_eq_true_eq, readableAttrs_iff, List.forall_mem_cons]

theorem readableList_iff : ∀ {es : List Expr}, readableList es = true ↔ ∀ e ∈ es, e.readable = true
  | [] => by simp [readableList]
  | e :: es => by rw [readableList, Bool.and_eq_true, readableList_iff, List.forall_mem_cons]

theorem attrs_readable {bs : List (String × Expr)} : (Expr.attrs bs).readable = true ↔
    (bs.map (·.1)).Nodup ∧ ∀ b ∈ bs, b.1 ∉ reservedWords ∧ b.2.readable = true := by
  rw [Expr.readable, Bool.and_eq_true, decide_eq_true_eq, readableAttrs_iff]

theorem list_readable {α : Type} {f : α → Expr} (hf : ∀ a, (f a).readable = true) (l : List α) :
    (Expr.list (l.map f)).readable = true := by
  rw [Expr.readable, readableList_iff, List.forall_mem_map]
  exact fun a _ => hf a

/-- The keys are those of the registry, and no name is bound twice in one place. -/
structure IndexDoc.Distinct (d : IndexDoc) : Prop where
  keys : d.sections.map (·.1) = registeredTypes.map (·.indexKey)
  names : ∀ s ∈ d.sections, s.2.Nodup
  secrets : (d.secrets.map (·.name)).Nodup
  mounts : ∀ s ∈ d.secrets, (s.mounts.map (·.1)).Nodup ∧
    ∀ m ∈ s.mounts, m.1 ∈ registeredTypes.map (·.indexKey)

/-- No workload and no secret of the file is called by a reserved word. -/
def IndexDoc.unreserved (d : IndexDoc) : Bool :=
  (d.sections.all fun s => s.2.all (· ∉ reservedWords)) && d.secrets.all (·.name ∉ reservedWords)

theorem indexKeys_free :
    ∀ key ∈ registeredTypes.map (·.indexKey), key ∉ reservedWords ∧ isBareName key = true := by
  decide

theorem IndexSecret.expr_readable {s : IndexSecret} (hnd : (s.mounts.map (·.1)).Nodup)
    (hkeys : ∀ m ∈ s.mounts, m.1 ∈ registeredTypes.map (·.indexKey)) : s.expr.2.readable = true := by
  have hmounts : (Expr.attrs (s.mounts.map mountExpr)).readable = true := by
    refine attrs_readable.2 ⟨?_, ?_⟩
    · rwa [List.map_map]
    · rw [List.forall_mem_map]
      exact fun m hm => ⟨(indexKeys_free _ (hkeys m hm)).1, list_readable (fun _ => by rw [Expr.readable]) _⟩
  refine attrs_readable.2 ⟨?_, ?_⟩
  · show ["file", "owner", "group", "mode", "mounts"].Nodup
    decide
  · simp only [List.forall_mem_cons]
    exact ⟨⟨by decide, by rw [Expr.readable]⟩, ⟨by decide, by rw [Expr.readable]⟩,
      ⟨by decide, by rw [Expr.readable]⟩, ⟨by decide, by rw [Expr.readable]⟩, ⟨by decide, hmounts⟩, nofun⟩

theorem sectionExpr_readable {s : String × List String} (hnd : s.2.Nodup) :
    (sectionExpr s).2.readable = true ↔ ∀ name ∈ s.2, name ∉ reservedWords := by
  unfold sectionExpr
  rw [attrs_readable, List.map_map, List.forall_mem_map]
  constructor
  · exact fun h name hname => (h.2 name hname).1
  · intro h
    refine ⟨?_, fun name hname => ⟨h name hname, by rw [Expr.readable]⟩⟩
    simpa [Function.comp_def] using hnd

theorem IndexDoc.expr_readable {d : IndexDoc} (hd : d.Distinct) : d.expr.readable = d.unreserved := by
  have hports : (Expr.attrs [("tcp", .list (d.tcp.map .int)), ("udp", .list (d.udp.map .int))]).readable = true := by
    refine attrs_readable.2 ⟨by show ["tcp", "udp"].Nodup; decide, ?_⟩
    have hints : ∀ xs : List Nat, (Expr.list (xs.map .int)).readable = true := list_readable fun _ => by
      rw [Expr.readable]
    simp only [List.forall_mem_cons]
    exact ⟨⟨by decide, hints _⟩, ⟨by decide, hints _⟩, nofun⟩
  have hsecrets : (Expr.attrs (d.secrets.map IndexSecret.expr)).readable = true ↔
      ∀ s ∈ d.secrets, s.name ∉ reservedWords := by
    rw [attrs_readable, List.map_map, List.forall_mem_map]
    constructor
    · exact fun h s hs => (h.2 s hs).1
    · intro h
      refine ⟨hd.secrets, fun s hs => ⟨h s hs, ?_⟩⟩
      exact IndexSecret.expr_readable (hd.mounts s hs).1 (hd.mounts s hs).2
  have hkeys : (d.attrs.map (·.1)).Nodup := by
    have hsections : (d.sections.map sectionExpr).map (·.1) = registeredTypes.map (·.indexKey) := by
      rw [List.map_map]
      exact hd.keys
    rw [IndexDoc.attrs, List.map_append, hsections]
    show (registeredTypes.map (·.indexKey) ++ ["hostPorts", "secrets"]).Nodup
    decide
  have hfree : ∀ s ∈ d.sections, s.1 ∉ reservedWords := fun s hs =>
    (indexKeys_free s.1 (hd.keys ▸ List.mem_map_of_mem hs)).1
  unfold IndexDoc.expr IndexDoc.unreserved
  rw [Bool.eq_iff_iff, attrs_readable, IndexDoc.attrs, List.forall_mem_append, List.forall_mem_map,
    Bool.and_eq_true, List.all_eq_true, List.all_eq_true]
  simp only [List.forall_mem_cons, List.all_eq_true, decide_eq_true_eq]
  constructor
  · rintro ⟨-, hsections, -, ⟨-, hs⟩, -⟩
    exact ⟨fun s h => (sectionExpr_readable (hd.names s h)).1 (hsections s h).2, hsecrets.1 hs⟩
  · rintro ⟨hsections, hs⟩
    refine ⟨by simpa [IndexDoc.attrs] using hkeys, fun s h =>
      ⟨hfree s h, (sectionExpr_readable (hd.names s h)).2 (hsections s h)⟩, ⟨by decide, hports⟩,
      ⟨by decide, hsecrets.2 hs⟩, nofun⟩

/-- index.nix is read as the attribute set it was written for exactly if no name in it is reserved; else it
is not read at all. -/
theorem IndexDoc.readNix_text {d : IndexDoc} (hnamed : d.Named) (hd : d.Distinct) :
    readNix d.text = if d.unreserved then some d.expr else none := by
  unfold readNix
  rw [IndexDoc.lex_text hnamed, Option.bind_some, parseNix_tokens, IndexDoc.expr_readable hd]

/-! ## What is written -/

/-- Rows fit for index.nix: valid names, each once, and mounts of the types' sections. -/
structure IndexSources (entries : List IndexEntry) (secrets : List IndexSecret) : Prop where
  names : ∀ e ∈ entries, validateName e.name = .ok ()
  distinct : (entries.map (·.name)).Nodup
  secretNames : ∀ s ∈ secrets, validateName s.name = .ok ()
  secretsDistinct : (secrets.map (·.name)).Nodup
  mounts : ∀ s ∈ secrets, (s.mounts.map (·.1)).Nodup ∧
    ∀ m ∈ s.mounts, m.1 ∈ registeredTypes.map (·.indexKey)

section Sources

variable {entries : List IndexEntry} {secrets : List IndexSecret}

theorem mem_indexDoc_secrets {s : IndexSecret} : s ∈ (indexDoc entries secrets).secrets ↔
    ∃ x ∈ secrets, normalizeSecret x = s := by
  show s ∈ (secrets.insertionSort _).map normalizeSecret ↔ _
  rw [List.mem_map]
  simp only [List.mem_insertionSort]

/-- The keys of the mounts that are written. -/
theorem normalizeSecret_keys (s : IndexSecret) : ∃ l : List (String × List String), l.Sublist s.mounts ∧
    ((normalizeSecret s).mounts.map (·.1)).Perm (l.map (·.1)) := by
  refine ⟨s.mounts.filter fun m => !m.2.isEmpty, List.filter_sublist, ?_⟩
  show (((List.insertionSort _ _).map fun m : String × List String => (m.1, sortStrings m.2)).map (·.1)).Perm _
  rw [List.map_map]
  exact (List.perm_insertionSort _ _).map _

theorem IndexSources.named (h : IndexSources entries secrets) : (indexDoc entries secrets).Named where
  keys s hs := by
    obtain ⟨wt, hwt, rfl⟩ := List.mem_map.1 hs
    exact (indexKeys_free _ (List.mem_map_of_mem hwt)).2
  names s hs name hname := by
    obtain ⟨wt, -, rfl⟩ := List.mem_map.1 hs
    obtain ⟨e, he, rfl, -⟩ := mem_sectionNames.1 hname
    exact h.names e he
  secrets s hs := by
    obtain ⟨x, hx, rfl⟩ := mem_indexDoc_secrets.1 hs
    exact h.secretNames x hx
  mounts s hs m hm := by
    obtain ⟨x, hx, rfl⟩ := mem_indexDoc_secrets.1 hs
    obtain ⟨l, hsub, hperm⟩ := normalizeSecret_keys x
    obtain ⟨m', hm', heq⟩ := List.mem_map.1 (hperm.mem_iff.1 (List.mem_map_of_mem hm))
    rw [← heq]
    exact (indexKeys_free _ ((h.mounts x hx).2 m' (hsub.subset hm'))).2

theorem IndexSources.doc_distinct (h : IndexSources entries secrets) : (indexDoc entries secrets).Distinct where
  keys := by
    unfold indexDoc
    rw [List.map_map]
    rfl
  names s hs := by
    obtain ⟨wt, -, rfl⟩ := List.mem_map.1 hs
    refine (List.perm_insertionSort _ _).nodup_iff.2 (h.distinct.sublist ?_)
    exact List.filter_sublist.map _
  secrets := by
    show (((secrets.insertionSort _).map normalizeSecret).map (·.name)).Nodup
    rw [List.map_map]
    exact ((List.perm_insertionSort _ secrets).map _).nodup_iff.2 h.secretsDistinct
  mounts s hs := by
    obtain ⟨x, hx, rfl⟩ := mem_indexDoc_secrets.1 hs
    obtain ⟨l, hsub, hperm⟩ := normalizeSecret_keys x
    refine ⟨hperm.nodup_iff.2 ((h.mounts x hx).1.sublist (hsub.map _)), fun m hm => ?_⟩
    obtain ⟨m', hm', heq⟩ := List.mem_map.1 (hperm.mem_iff.1 (List.mem_map_of_mem hm))
    rw [← heq]
    exact (h.mounts x hx).2 m' (hsub.subset hm')

end Sources

end Nixbox.Nix
