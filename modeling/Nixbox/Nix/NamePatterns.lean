/-
The two ways a workload's name is checked, by the server's expression and by the pattern of its form
field: they accept the same names, and each of these is one segment of a path below the state flake.
-/
import Nixbox.Go.Path
import Nixbox.Lib.Pattern
import Nixbox.Nix.Modules
import Nixbox.Nix.StateFlake

namespace Nixbox.Nix

open Go Pattern

/-! ## Definitions -/

/-- `regexp.MustCompile(text).MatchString(s)`. -/
def MatchString (text s : String) : Prop := ∃ r, read text = some r ∧ r.Finds s.toList

/-- A `pattern` attribute: the whole value has to match. -/
def MatchesPattern (text s : String) : Prop := ∃ r, read text = some r ∧ r.Covers s.toList

/-- The class `[a-z0-9]`. -/
def alnumClass : List (Char × Char) := [('a', 'z'), ('0', '9')]

/-- The class `[a-z0-9-]`. -/
def nameClass : List (Char × Char) := [('a', 'z'), ('0', '9'), ('-', '-')]

/-- What stands behind the first character of a name, and `tail` behind that. -/
def nameTail (mid : Nat) (tail : Pattern) : Pattern :=
  seq (opt (seq (rep 0 mid (cls nameClass)) (seq (cls alnumClass) empty))) tail

/-- `[a-z0-9]([a-z0-9-]{0,mid}[a-z0-9])?`. -/
def namePattern (mid : Nat) : Pattern := seq (cls alnumClass) (nameTail mid empty)

/-- `^[a-z0-9]([a-z0-9-]{0,mid}[a-z0-9])?$`. -/
def anchoredName (mid : Nat) : Pattern := seq start (seq (cls alnumClass) (nameTail mid (seq stop empty)))

/-- A character that means nothing in a path or a text: no slash, dot, blank or control character. -/
def Harmless (c : Char) : Prop :=
  c ≠ '/' ∧ c ≠ '.' ∧ isSpace c = false ∧ 0x20 ≤ c.toNat ∧ ¬ (0x7f ≤ c.toNat ∧ c.toNat ≤ 0x9f)

/-- The file of a workload under the directory of the state flake. -/
def workloadFilePath (dir name : String) : List Char := joinPath [dir, "workloads", name, "workload.nix"]

/-- The file of a secret under the directory of the state flake. -/
def secretFilePath (dir name : String) : List Char := joinPath [dir, "secrets", secretFile name]

/-- One character, or two of them around at most `mid` that may be dashes too. -/
def Shape (mid : Nat) (cs : List Char) : Prop :=
  ∃ c t, cs = c :: t ∧ isAlnum c = true ∧ (t = [] ∨ ∃ inner last, t = inner ++ [last] ∧
    inner.length ≤ mid ∧ (∀ d ∈ inner, (isAlnum d || d == '-') = true) ∧ isAlnum last = true)

/-! ## The expressions -/

section Expressions

variable {mid n : Nat} {s : String} {cs : List Char} {c : Char}

theorem read_nameRe : read "^[a-z0-9]([a-z0-9-]\x7b0,61\x7d[a-z0-9])?$" = some (anchoredName 61) := by decide +kernel

/-- The pattern of every type is the one of its length. -/
theorem read_namePattern : ∀ wt ∈ registrations, 2 ≤ wt.nameMaxLen ∧ wt.nameMaxLen ≤ 63 ∧
    read wt.namePattern = some (namePattern (wt.nameMaxLen - 2)) := by
  unfold registrations
  simp only [List.forall_mem_cons, List.not_mem_nil, false_imp_iff, implies_true, and_true]
  decide +kernel

theorem inRanges_alnum : inRanges alnumClass c = isAlnum c := by
  simp [inRanges, alnumClass, isAlnum]

theorem inRanges_name : inRanges nameClass c = (isAlnum c || c == '-') := by
  have hdash : (decide ('-' ≤ c) && decide (c ≤ '-')) = (c == '-') := by
    rw [Bool.eq_iff_iff, Bool.and_eq_true, decide_eq_true_iff, decide_eq_true_iff, beq_iff_eq]
    exact ⟨fun h => Char.le_antisymm h.2 h.1, fun h => by rw [h]; exact ⟨Char.le_refl _, Char.le_refl _⟩⟩
  rw [← hdash, isAlnum, Bool.or_assoc]
  simp only [inRanges, nameClass, List.any_cons, List.any_nil, Bool.or_false]

/-- What the pattern of a name matches, whatever comes before it. -/
theorem matches_nameTail {pre post : List Char} : (nameTail mid empty).Matches pre cs post ↔
    cs = [] ∨ ∃ inner last, cs = inner ++ [last] ∧
      inner.length ≤ mid ∧ (∀ d ∈ inner, (isAlnum d || d == '-') = true) ∧ isAlnum last = true := by
  unfold nameTail
  rw [seq_empty]
  refine or_congr Iff.rfl ?_
  constructor
  · rintro ⟨inner, b, rfl, hinner, hb⟩
    obtain ⟨last, rfl, hlast⟩ := seq_empty.1 hb
    obtain ⟨⟨-, hlen⟩, hall⟩ := rep_cls.1 hinner
    exact ⟨inner, last, rfl, hlen, fun d hd => inRanges_name.symm.trans (hall d hd),
      inRanges_alnum.symm.trans hlast⟩
  · rintro ⟨inner, last, rfl, hlen, hall, hlast⟩
    exact ⟨inner, [last], rfl, rep_cls.2 ⟨⟨Nat.zero_le _, hlen⟩, fun d hd => inRanges_name.trans (hall d hd)⟩,
      seq_empty.2 ⟨last, rfl, inRanges_alnum.trans hlast⟩⟩

theorem covers_namePattern : (namePattern mid).Covers cs ↔ Shape mid cs := by
  constructor
  · rintro ⟨a, t, rfl, ⟨c, rfl, hc⟩, ht⟩
    exact ⟨c, t, rfl, inRanges_alnum.symm.trans hc, matches_nameTail.1 ht⟩
  · rintro ⟨c, t, rfl, hc, ht⟩
    exact ⟨[c], t, rfl, ⟨c, rfl, inRanges_alnum.trans hc⟩, matches_nameTail.2 ht⟩

theorem nameRe_shape : nameRe mid s = true ↔ Shape mid s.toList := by
  unfold nameRe
  split
  · rename_i hnil
    rw [hnil]
    exact ⟨nofun, fun ⟨_, _, h, _⟩ => nomatch h⟩
  · rename_i c t hcons
    rw [hcons, Bool.and_eq_true]
    constructor
    · rintro ⟨hc, ht⟩
      refine ⟨c, t, rfl, hc, ?_⟩
      split at ht
      · rename_i hrev
        exact .inl (List.reverse_eq_nil_iff.1 hrev)
      · rename_i last inner hrev
        simp only [Bool.and_eq_true, decide_eq_true_iff, List.all_eq_true] at ht
        refine .inr ⟨inner.reverse, last, List.reverse_eq_cons_iff.1 hrev, ?_, fun d hd => ?_, ht.1.1⟩
        · rw [List.length_reverse]
          exact ht.1.2
        · exact ht.2 d (List.mem_reverse.1 hd)
    · rintro ⟨c', t', heq, hc, ht⟩
      obtain ⟨rfl, rfl⟩ := List.cons.inj heq
      refine ⟨hc, ?_⟩
      rcases ht with rfl | ⟨inner, last, rfl, hlen, hall, hlast⟩
      · rfl
      · have hrev : (inner ++ [last]).reverse = last :: inner.reverse := List.reverse_concat ..
        simp only [hrev, List.length_reverse, List.all_reverse, Bool.and_eq_true, decide_eq_true_iff, List.all_eq_true]
        exact ⟨⟨hlast, hlen⟩, hall⟩

/-- The check of a name is the expression it is compiled from. -/
theorem nameRe_matchString :
    nameRe 61 s = true ↔ MatchString "^[a-z0-9]([a-z0-9-]\x7b0,61\x7d[a-z0-9])?$" s := by
  have hstops : Stops (namePattern 61) (seq (cls alnumClass) (nameTail 61 (seq stop empty))) :=
    (stops_empty.seq _).seq _
  unfold MatchString
  rw [read_nameRe, nameRe_shape, ← covers_namePattern, ← finds_anchored hstops]
  constructor
  · exact fun h => ⟨_, rfl, h⟩
  · rintro ⟨r, hr, h⟩
    cases hr
    exact h

/-- A lower bound on the characters in the middle is one on all. -/
theorem nameRe_length (h : n ≤ mid) : nameRe n s = true ↔ nameRe mid s = true ∧ s.length ≤ n + 2 := by
  rw [nameRe_shape, nameRe_shape, ← String.length_toList]
  generalize s.toList = cs
  constructor
  · rintro ⟨c, t, rfl, hc, rfl | ⟨inner, last, rfl, hlen, hall, hlast⟩⟩
    · exact ⟨⟨c, [], rfl, hc, .inl rfl⟩, Nat.le_add_left _ _⟩
    · refine ⟨⟨c, _, rfl, hc, .inr ⟨inner, last, rfl, hlen.trans h, hall, hlast⟩⟩, ?_⟩
      simp only [List.length_cons, List.length_append, List.length_nil]
      omega
  · rintro ⟨⟨c, t, rfl, hc, rfl | ⟨inner, last, rfl, hlen, hall, hlast⟩⟩, hle⟩
    · exact ⟨c, [], rfl, hc, .inl rfl⟩
    · simp only [List.length_cons, List.length_append, List.length_nil] at hle
      exact ⟨c, _, rfl, hc, .inr ⟨inner, last, rfl, by omega, hall, hlast⟩⟩

end Expressions

/-! ## What is accepted -/

section Accepted

variable {wt : Registration} {s : String} {c : Char}

theorem toNat_of_isAlnum (h : isAlnum c = true) :
    (97 ≤ c.toNat ∧ c.toNat ≤ 122) ∨ (48 ≤ c.toNat ∧ c.toNat ≤ 57) := by
  rw [isAlnum, Bool.or_eq_true, Bool.and_eq_true, Bool.and_eq_true] at h
  simp only [decide_eq_true_iff] at h
  exact h

/-- A text of ASCII characters has as many bytes. -/
theorem utf8ByteSize_ascii (h : ∀ c ∈ s.toList, c.toNat < 128) : s.utf8ByteSize = s.length := by
  rw [← String.length_toList]
  obtain ⟨cs, rfl⟩ : ∃ cs, s = String.ofList cs := ⟨s.toList, String.ofList_toList.symm⟩
  rw [String.toList_ofList] at h ⊢
  induction cs using List.reverseRecOn with
  | nil => rfl
  | append_singleton cs c ih =>
    have hone : c.utf8Size = 1 := Char.utf8Size_eq_one_iff.2 (by
      have hc := h c (List.mem_append_right _ (List.mem_cons_self ..))
      exact UInt32.le_iff_toNat_le.2 (Nat.le_of_lt_succ hc))
    rw [String.ofList_append, String.utf8ByteSize_append, ih fun d hd => h d (List.mem_append_left _ hd),
      List.length_append]
    show _ + (String.singleton c).utf8ByteSize = _
    rw [String.utf8ByteSize_singleton, hone]
    rfl

/-- Every type has the shared rule, or the one with the bound of the interface name. -/
theorem registrations_rules : ∀ wt ∈ registrations,
    (wt.validateName = validateName ∧ wt.nameMaxLen = 63) ∨
    (wt.validateName = validateContainerName ∧ wt.nameMaxLen = 11) := by
  unfold registrations
  exact List.forall_mem_cons.2 ⟨.inr ⟨rfl, rfl⟩, List.forall_mem_cons.2 ⟨.inl ⟨rfl, rfl⟩,
    List.forall_mem_singleton.2 (.inl ⟨rfl, rfl⟩)⟩⟩

theorem toNat_of_accepted (h : nameRe 61 s = true) : ∀ c ∈ s.toList,
    c.toNat = 45 ∨ (97 ≤ c.toNat ∧ c.toNat ≤ 122) ∨ (48 ≤ c.toNat ∧ c.toNat ≤ 57) := by
  intro c hc
  rcases nameRe_chars h c hc with halnum | rfl
  · exact .inr (toNat_of_isAlnum halnum)
  · exact .inl rfl

/-- Every type accepts the names of the shared rule that are no longer than its bound. -/
theorem validateName_length (hwt : wt ∈ registrations) :
    wt.validateName s = .ok () ↔ nameRe 61 s = true ∧ s.length ≤ wt.nameMaxLen := by
  rcases registrations_rules wt hwt with ⟨hrule, hlen⟩ | ⟨hrule, hlen⟩
  · rw [hrule, hlen, validateName_ok]
    exact nameRe_length (Nat.le_refl 61)
  · rw [hrule, hlen, validateContainerName]
    cases hvalid : validateName s with
    | error e =>
      have hnot : ¬ nameRe 61 s = true := fun h => nomatch hvalid.symm.trans (validateName_ok.2 h)
      exact ⟨nofun, fun h => absurd h.1 hnot⟩
    | ok =>
      have hname := validateName_ok.1 hvalid
      have hascii : ∀ c ∈ s.toList, c.toNat < 128 := by
        intro c hc
        have hcode := toNat_of_accepted hname c hc
        omega
      rw [utf8ByteSize_ascii hascii]
      show (if _ then _ else _) = _ ↔ _
      split
      · rename_i hlong
        exact ⟨nofun, fun h => absurd h.2 (Nat.not_le.2 hlong)⟩
      · rename_i hshort
        exact ⟨fun _ => ⟨hname, Nat.not_lt.1 hshort⟩, fun _ => rfl⟩

theorem matchesPattern_iff (hwt : wt ∈ registrations) :
    MatchesPattern wt.namePattern s ↔ nameRe 61 s = true ∧ s.length ≤ wt.nameMaxLen := by
  obtain ⟨htwo, hmax, hread⟩ := read_namePattern wt hwt
  have hcovers : MatchesPattern wt.namePattern s ↔ nameRe (wt.nameMaxLen - 2) s = true := by
    rw [MatchesPattern, hread, nameRe_shape, ← covers_namePattern]
    constructor
    · rintro ⟨r, hr, h⟩
      cases hr
      exact h
    · exact fun h => ⟨_, rfl, h⟩
  rw [hcovers, nameRe_length (show wt.nameMaxLen - 2 ≤ 61 by omega), Nat.sub_add_cancel htwo]

/-- A name that is accepted is harmless. -/
theorem nameRe_harmless (h : nameRe 61 s = true) : ∀ c ∈ s.toList, Harmless c := by
  intro c hc
  have hcode := toNat_of_accepted h c hc
  have hne : ∀ d : Char, c.toNat ≠ d.toNat → c ≠ d := fun d hd hcd => hd (by rw [hcd])
  refine ⟨hne '/' ?_, hne '.' ?_, ?_, ?_, ?_⟩
  · show c.toNat ≠ 47
    omega
  · show c.toNat ≠ 46
    omega
  · exact isSpace_of_graphic (by omega) (by omega)
  · omega
  · omega

/-- A name that is accepted is one segment of a path, and so is its ciphertext's file name. -/
theorem nameRe_isSegment (h : nameRe 61 s = true) :
    IsSegment s.toList ∧ IsSegment (secretFile s).toList := by
  have hchars := nameRe_harmless h
  have hsecret : (secretFile s).toList = s.toList ++ ".age".toList := String.toList_append
  obtain ⟨c, t, hcons, -, -⟩ := nameRe_shape.1 h
  have hdot : c ≠ '.' := (hchars c (by rw [hcons]; exact List.mem_cons_self ..)).2.1
  have hname : ∀ rest, IsName (c :: rest) :=
    fun rest => ⟨nofun, fun hd => hdot (List.cons.inj hd).1, fun hd => hdot (List.cons.inj hd).1⟩
  have hslash : '/' ∉ s.toList := fun hmem => (hchars '/' hmem).1 rfl
  refine ⟨⟨hcons ▸ hname t, hslash⟩, ?_, ?_⟩
  · rw [hsecret, hcons]
    exact hname _
  · rw [hsecret, List.mem_append]
    exact not_or.2 ⟨hslash, by decide⟩

theorem workloadFilePath_eq (h : nameRe 61 s = true) (dir : String) : workloadFilePath dir s =
    (joinPath [dir, "workloads"] ++ '/' :: s.toList) ++ "/workload.nix".toList := by
  have hseg := (nameRe_isSegment h).1
  have hdir : IsSegment "workloads".toList := ⟨⟨by decide, by decide, by decide⟩, by decide⟩
  have hfile : IsSegment "workload.nix".toList := ⟨⟨by decide, by decide, by decide⟩, by decide⟩
  calc workloadFilePath dir s = joinPath [dir, "workloads", s] ++ '/' :: "workload.nix".toList :=
        joinPath_snoc hseg hfile [dir, "workloads"]
    _ = _ := by
      rw [show joinPath [dir, "workloads", s] = _ from joinPath_snoc hdir hseg [dir]]
      rfl

theorem secretFilePath_eq (h : nameRe 61 s = true) (dir : String) : secretFilePath dir s =
    joinPath [dir, "secrets"] ++ '/' :: (s.toList ++ ".age".toList) := by
  have hdir : IsSegment "secrets".toList := ⟨⟨by decide, by decide, by decide⟩, by decide⟩
  have hsecret : (secretFile s).toList = s.toList ++ ".age".toList := String.toList_append
  rw [← hsecret]
  exact joinPath_snoc hdir (nameRe_isSegment h).2 [dir]

/-- A type accepts the names of its pattern that are no longer than its bound. What it accepts is
harmless, and the files of two names are two children of the directories they are kept in. -/
theorem validateName_pattern (hwt : wt ∈ registrations) :
    (∀ s, wt.validateName s = .ok () ↔ MatchesPattern wt.namePattern s ∧ s.length ≤ wt.nameMaxLen) ∧
    (∀ s, wt.validateName s = .ok () → ∀ c ∈ s.toList, Harmless c) ∧
    ∀ dir,
      (∀ s, wt.validateName s = .ok () →
        workloadFilePath dir s = (joinPath [dir, "workloads"] ++ '/' :: s.toList) ++ "/workload.nix".toList ∧
        secretFilePath dir s = joinPath [dir, "secrets"] ++ '/' :: (s.toList ++ ".age".toList)) ∧
      ∀ wt' ∈ registrations, ∀ s t, wt.validateName s = .ok () → wt'.validateName t = .ok () → s ≠ t →
        workloadFilePath dir s ≠ workloadFilePath dir t ∧ secretFilePath dir s ≠ secretFilePath dir t := by
  have hrule : ∀ wt ∈ registrations, ∀ {s}, wt.validateName s = .ok () → nameRe 61 s = true :=
    fun wt hwt _ h => ((validateName_length hwt).1 h).1
  refine ⟨fun s => ?_, fun s h => nameRe_harmless (hrule wt hwt h), fun dir => ⟨fun s h => ?_, ?_⟩⟩
  · rw [matchesPattern_iff hwt, validateName_length hwt]
    exact ⟨fun h => ⟨h, h.2⟩, fun h => h.1⟩
  · exact ⟨workloadFilePath_eq (hrule wt hwt h) dir, secretFilePath_eq (hrule wt hwt h) dir⟩
  · intro wt' hwt' s t hs ht hne
    have hs := hrule wt hwt hs
    have ht := hrule wt' hwt' ht
    rw [workloadFilePath_eq hs, workloadFilePath_eq ht, secretFilePath_eq hs, secretFilePath_eq ht]
    constructor
    · intro heq
      have hnames := List.append_cancel_left (List.append_cancel_right heq)
      exact hne (String.toList_injective (List.cons.inj hnames).2)
    · intro heq
      have hnames := (List.cons.inj (List.append_cancel_left heq)).2
      exact hne (String.toList_injective (List.append_cancel_right hnames))

theorem validateName_pattern_container : MatchesPattern registrations[0].namePattern "web-1" ∧
    workloadFilePath "/var/lib/nixbox" "web-1" ≠ workloadFilePath "/var/lib/nixbox" "web-2" :=
  have hwt : registrations[0] ∈ registrations := List.getElem_mem _
  have h := validateName_pattern hwt
  ⟨((h.1 "web-1").1 (by decide +kernel)).1,
    ((h.2.2 "/var/lib/nixbox").2 _ hwt "web-1" "web-2" (by decide +kernel) (by decide +kernel) (by decide)).1⟩

end Accepted

end Nixbox.Nix
