/-
Go's `net/url` on bytes: what `url.Parse` makes of a text, and the path and query it is written with
again. How a host is parsed is left open, as it rests on the parser of IP addresses. A path as it is
written has no byte that means something elsewhere in a URL.
-/
import Mathlib.Data.List.TakeWhile
import Nixbox.Lib.Percent

namespace Go

open UrlEncoded (Bytes equals)
open Percent

/-! ## Definitions -/

/-- The byte `-`. -/
def minus : UInt8 := 45

/-- The byte `.`. -/
def dot : UInt8 := 46

/-- The byte `/`. -/
def slash : UInt8 := 47

/-- The byte `:`. -/
def colon : UInt8 := 58

/-- The byte `?`. -/
def question : UInt8 := 63

/-- The byte `@`. -/
def atSign : UInt8 := 64

/-- The byte `#`. -/
def hash : UInt8 := 35

/-- The byte `*`. -/
def star : UInt8 := 42

/-- The byte of a backslash. -/
def backslash : UInt8 := 92

/-- The bytes of a text whose characters are all below U+0100. -/
def bytesOf (s : String) : Bytes := s.toList.map fun c => c.toNat.toUInt8

/-- A letter of ASCII. -/
def isLetter (b : UInt8) : Bool := (65 ≤ b.toNat && b.toNat ≤ 90) || (97 ≤ b.toNat && b.toNat ≤ 122)

/-- A digit of ASCII. -/
def isDigit (b : UInt8) : Bool := 48 ≤ b.toNat && b.toNat ≤ 57

/-- What `stringContainsCTLByte` looks for. -/
def isCTL (b : UInt8) : Bool := b.toNat < 32 || b.toNat == 127

/-- `shouldEscape(b, encodePath)` is false. -/
def pathPlain (b : UInt8) : Bool := isLetter b || isDigit b || b ∈ bytesOf "-_.~$&+,/:;=@"

/-- `shouldEscape(b, encodeQueryComponent)` is false. -/
def queryPlain (b : UInt8) : Bool := isLetter b || isDigit b || b ∈ bytesOf "-_.~"

/-- What `validEncoded(_, encodePath)` lets pass. -/
def pathByte (b : UInt8) : Bool := b ∈ bytesOf "!$&'()*+,;=:@[]%" || pathPlain b

/-- What `validUserinfo` lets pass. -/
def userinfoByte (b : UInt8) : Bool := isLetter b || isDigit b || b ∈ bytesOf "-._:~!$&'()*+,;=%@"

/-- The fields of `url.URL` that are read here. -/
structure Url where
  scheme : Bytes := []
  opaqueData : Bytes := []
  host : Bytes := []
  path : Bytes := []
  rawPath : Bytes := []
  forceQuery : Bool := false
  rawQuery : Bytes := []
  deriving DecidableEq

/-- `getScheme` from where its loop is, with what it has read, last byte first. -/
def getSchemeFrom (read : Bytes) : Bytes → Option (Bytes × Bytes)
  | [] => some ([], read.reverse)
  | b :: rest =>
    if isLetter b then getSchemeFrom (b :: read) rest
    else if isDigit b ∨ b ∈ [UrlEncoded.plus, minus, dot] then
      if read = [] then some ([], b :: rest) else getSchemeFrom (b :: read) rest
    else if b = colon then
      if read = [] then none else some (read.reverse, rest)
    else some ([], read.reverse ++ b :: rest)

/-- `getScheme`: the scheme, and what follows it. -/
def getScheme (rawURL : Bytes) : Option (Bytes × Bytes) := getSchemeFrom [] rawURL

/-- `strings.ToLower` on ASCII. -/
def toLower (s : Bytes) : Bytes := s.map fun b => if 65 ≤ b.toNat ∧ b.toNat ≤ 90 then b + 32 else b

/-- `(*URL).setPath`. -/
def Url.setPath (u : Url) (p : Bytes) : Option Url := do
  let path ← unescape p
  return { u with path := path, rawPath := if p = escape pathPlain path then [] else p }

/-- `(*URL).EscapedPath`. -/
def Url.escapedPath (u : Url) : Bytes :=
  if u.rawPath ≠ [] ∧ u.rawPath.all pathByte ∧ unescape u.rawPath = some u.path then u.rawPath
  else if u.path = [star] then [star]
  else escape pathPlain u.path

/-- `(*URL).RequestURI`. -/
def Url.requestURI (u : Url) : Bytes :=
  let result :=
    if u.opaqueData = [] then
      if u.escapedPath = [] then [slash] else u.escapedPath
    else if [slash, slash] <+: u.opaqueData then u.scheme ++ colon :: u.opaqueData
    else u.opaqueData
  if u.forceQuery ∨ u.rawQuery ≠ [] then result ++ question :: u.rawQuery else result

/-- `Values.Encode`: the keys sorted, the values of a key in their order. -/
def encodeValues (kvs : List (Bytes × Bytes)) : Bytes :=
  UrlEncoded.encode queryPlain (kvs.mergeSort fun a b => a.1 ≤ b.1)

section Parse

-- `parseHost(scheme, host)`; none where it reports an error
variable (parseHost : Bytes → Bytes → Option Bytes)

/-- `parseAuthority`: the host after the last `@`, and the user information before it is checked. -/
def parseAuthority (scheme authority : Bytes) : Option Bytes :=
  if atSign ∈ authority then do
    let host ← parseHost scheme (authority.reverse.takeWhile (· ≠ atSign)).reverse
    let userinfo := ((authority.reverse.dropWhile (· ≠ atSign)).drop 1).reverse
    if userinfo.all userinfoByte then
      let _ ← unescape (userinfo.takeWhile (· ≠ colon))
      let _ ← unescape ((userinfo.dropWhile (· ≠ colon)).drop 1)
      return host
    else none
  else parseHost scheme authority

/-- The path begins with two slashes that an authority follows. -/
def hasAuthority (scheme path : Bytes) : Bool :=
  (scheme ≠ [] || !([slash, slash, slash].isPrefixOf path)) && [slash, slash].isPrefixOf path

/-- What `parse` makes of the part before the query, after the scheme. -/
def parsePath (scheme path : Bytes) (u : Url) : Option Url :=
  if path.head? ≠ some slash ∧ scheme ≠ [] then some { u with opaqueData := path }
  -- the first segment of a relative path has no colon
  else if path.head? ≠ some slash ∧ colon ∈ path.takeWhile (· ≠ slash) then none
  else if hasAuthority scheme path then do
    let authority := path.drop 2
    let host ← parseAuthority parseHost scheme (authority.takeWhile (· ≠ slash))
    { u with host := host }.setPath (authority.dropWhile (· ≠ slash))
  else u.setPath path

/-- `parse(rawURL, false)`. A query that is a single `?` at the end is noted, and is empty. -/
def parse (rawURL : Bytes) : Option Url :=
  if rawURL.any isCTL then none
  else if rawURL = [star] then some { path := [star] }
  else do
    let (scheme, rest) ← getScheme rawURL
    let tail := rest.dropWhile (· ≠ question)
    parsePath parseHost scheme (rest.takeWhile (· ≠ question))
      { scheme := toLower scheme, forceQuery := tail = [question], rawQuery := tail.drop 1 }

/-- `url.Parse`: what follows a `#` is cut off, and has to be escaped properly. -/
def urlParse (rawURL : Bytes) : Option Url := do
  let u ← parse parseHost (rawURL.takeWhile (· ≠ hash))
  let _ ← unescape ((rawURL.dropWhile (· ≠ hash)).drop 1)
  return u

end Parse

/-! ## A path as it is written -/

section Escaped

variable {u : Url} {b : UInt8} {p : Bytes}

theorem pathByte_spec (h : pathByte b = true) :
    b ∉ [question, hash, backslash] ∧ isCTL b = false ∧ b.toNat < 128 := by
  have hall : ∀ n < 256, pathByte n.toUInt8 = true →
      n.toUInt8 ∉ [question, hash, backslash] ∧ isCTL n.toUInt8 = false ∧ n.toUInt8.toNat < 128 := by
        decide +kernel
  have hb := hall b.toNat b.toNat_lt
  rw [show b.toNat.toUInt8 = b from UInt8.ofNat_toNat] at hb
  exact hb h

theorem hexDigit_pathByte : ∀ n < 16, pathByte (UrlEncoded.hexDigit n) = true := by decide

theorem Url.escapedPath_bytes (u : Url) : ∀ b ∈ u.escapedPath, pathByte b = true := by
  intro b hb
  unfold escapedPath at hb
  split at hb
  · rename_i h
    exact List.all_eq_true.1 h.2.1 b hb
  · split at hb
    · rw [List.mem_singleton.1 hb]
      decide
    · rcases mem_escape hb with hplain | rfl | ⟨n, hn, rfl⟩
      · unfold pathByte
        rw [hplain, Bool.or_true]
      · decide
      · exact hexDigit_pathByte n hn

theorem Url.unescape_escapedPath (u : Url) : unescape u.escapedPath = some u.path := by
  unfold escapedPath
  split
  · rename_i h
    exact h.2.2
  · split
    · rename_i h
      rw [h]
      rfl
    · exact unescape_escape (by decide)

theorem Url.escapedPath_ne_nil (h : u.path ≠ []) : u.escapedPath ≠ [] := by
  intro hnil
  have hback := u.unescape_escapedPath
  rw [hnil] at hback
  exact h (Option.some.inj hback).symm

end Escaped

/-! ## What a path and a query are read as -/

/-- A path that is read as something else when it stands alone: as a host after two slashes, or as a
scheme up to a colon. -/
def Misread (parseHost : Bytes → Bytes → Option Bytes) (p : Bytes) : Prop :=
  (∃ a, p = slash :: slash :: a ∧ a.head? ≠ some slash ∧
    parseAuthority parseHost [] (a.takeWhile (· ≠ slash)) ≠ some []) ∨
  (p.head? ≠ some slash ∧ colon ∈ p.takeWhile (· ≠ slash))

section Targets

variable {parseHost : Bytes → Bytes → Option Bytes} {u ref : Url} {p tail s read scheme rest : Bytes}

/-- What is left of a text without a scheme is the text. -/
theorem getSchemeFrom_nil (h : getSchemeFrom read s = some ([], rest)) : rest = read.reverse ++ s := by
  induction s generalizing read with
  | nil =>
    cases h
    rw [List.append_nil]
  | cons b s ih =>
    unfold getSchemeFrom at h
    split at h
    · rw [ih h]; simp
    split at h
    · split at h
      · rename_i hread
        cases h
        rw [hread]
        rfl
      · rw [ih h]; simp
    split at h
    · split at h
      · cases h
      · rename_i hread
        obtain ⟨hnil, -⟩ := Prod.mk.inj (Option.some.inj h)
        exact absurd (List.reverse_eq_nil_iff.1 hnil) hread
    · cases h
      rfl

/-- Without a colon there is no scheme. -/
theorem getSchemeFrom_slash (hstop : s.head? = none ∨ s.head? = some slash ∨ s.head? = some question) :
    getSchemeFrom read s = some ([], read.reverse ++ s) := by
  cases s with
  | nil => 
    rw [List.append_nil]
    rfl
  | cons b s =>
    have hb : b = slash ∨ b = question := by simpa using hstop
    rcases hb with rfl | rfl <;> rfl

/-- A text whose first segment has no colon has no scheme. -/
theorem getSchemeFrom_segment (hseg : ∀ b ∈ p, b ≠ colon)
    (hstop : s.head? = none ∨ s.head? = some slash ∨ s.head? = some question) :
    getSchemeFrom read (p ++ s) = some ([], read.reverse ++ (p ++ s)) := by
  induction p generalizing read with
  | nil => exact getSchemeFrom_slash hstop
  | cons b p ih =>
    have hrest : ∀ c ∈ p, c ≠ colon := fun c hc => hseg c (List.mem_cons_of_mem _ hc)
    rw [List.cons_append]
    unfold getSchemeFrom
    split
    · rw [ih hrest]; simp
    split
    · split
      · rename_i hread
        rw [hread]
        rfl
      · rw [ih hrest]; simp
    · rw [if_neg (hseg b (List.mem_cons_self ..))]

theorem getScheme_path (hcolon : colon ∉ p.takeWhile (· ≠ slash))
    (htail : tail.head? = none ∨ tail.head? = some question) :
    getScheme (p ++ tail) = some ([], p ++ tail) := by
  have hsplit : p ++ tail = p.takeWhile (· ≠ slash) ++ (p.dropWhile (· ≠ slash) ++ tail) := by
    rw [← List.append_assoc, List.takeWhile_append_dropWhile]
  have hhead : (p.dropWhile (· ≠ slash) ++ tail).head? = none ∨
    (p.dropWhile (· ≠ slash) ++ tail).head? = some slash ∨
      (p.dropWhile (· ≠ slash) ++ tail).head? = some question := by
    cases hdrop : p.dropWhile (· ≠ slash) with
    | nil => exact htail.imp_right .inr
    | cons b q =>
      have hb := List.head?_dropWhile_not (· ≠ slash) p
      rw [hdrop] at hb
      have hb : b = slash := by simpa using hb
      exact .inr (.inl (by rw [hb]; rfl))
  rw [hsplit]
  exact getSchemeFrom_segment (fun b hb he => hcolon (he ▸ hb)) hhead

theorem setPath_isSome (u : Url) (h : (unescape p).isSome) :
    ∃ path raw, u.setPath p = some { u with path := path, rawPath := raw } := by
  obtain ⟨path, hpath⟩ := Option.isSome_iff_exists.1 h
  unfold Url.setPath
  rw [hpath]
  exact ⟨_, _, rfl⟩

theorem hasAuthority_nil : hasAuthority [] p = true ↔ ∃ a, p = slash :: slash :: a ∧ a.head? ≠ some slash := by
  unfold hasAuthority
  rw [show decide (([] : Bytes) ≠ []) = false from rfl, Bool.false_or, Bool.and_eq_true, Bool.not_eq_true',
    ← Bool.not_eq_true, List.isPrefixOf_iff_prefix, List.isPrefixOf_iff_prefix]
  constructor
  · rintro ⟨hthree, a, rfl⟩
    refine ⟨a, rfl, fun ha => hthree ?_⟩
    obtain ⟨a', rfl⟩ := List.head?_eq_some_iff.1 ha
    exact ⟨a', rfl⟩
  · rintro ⟨a, rfl, ha⟩
    refine ⟨?_, a, rfl⟩
    rintro ⟨a', h⟩
    cases h
    exact ha rfl

/-- The part of a path from a slash on is escaped properly if the path is. -/
theorem unescape_dropWhile (q : Bytes) (h : (unescape (q ++ p)).isSome) :
    (unescape (p.dropWhile (· ≠ slash))).isSome := by
  cases hdrop : p.dropWhile (· ≠ slash) with
  | nil => rfl
  | cons b rest =>
    have hb := List.head?_dropWhile_not (· ≠ slash) p
    rw [hdrop] at hb
    have hb : b = slash := by simpa using hb
    rw [← List.takeWhile_append_dropWhile (p := (· ≠ slash)) (l := p), hdrop, ← List.append_assoc] at h
    exact unescape_suffix (by rw [hb]; rfl) h

theorem parsePath_local (hun : (unescape p).isSome) (hu : u.scheme = [] ∧ u.host = []) :
    (∃ v, parsePath parseHost [] p u = some v ∧ v.scheme = [] ∧ v.host = []) ↔ ¬ Misread parseHost p := by
  unfold parsePath Misread
  rw [if_neg (by simp)]
  split
  · rename_i hcolon
    exact iff_of_false nofun (not_not.2 (.inr hcolon))
  rename_i hcolon
  rw [or_iff_left hcolon]
  split
  · rename_i hauth
    obtain ⟨a, rfl, ha⟩ := hasAuthority_nil.1 hauth
    have hrest : (unescape (a.dropWhile (· ≠ slash))).isSome := unescape_dropWhile [slash, slash] hun
    rw [List.drop_succ_cons, List.drop_one, List.tail_cons]
    dsimp only
    cases hhost : parseAuthority parseHost [] (a.takeWhile (· ≠ slash)) with
    | none =>
      have hnone : ¬ ∃ v, (none : Option Url) = some v ∧ v.scheme = [] ∧ v.host = [] := by
        rintro ⟨v, hv, -⟩
        cases hv
      refine iff_of_false hnone (not_not.2 ⟨a, rfl, ha, ?_⟩)
      rw [hhost]
      exact nofun
    | some host =>
      obtain ⟨path, raw, hset⟩ := setPath_isSome (({ u with host := host } : Url)) hrest
      show (∃ v, (({ u with host := host } : Url)).setPath (a.dropWhile (· ≠ slash)) = some v ∧ _) ↔ _
      rw [hset]
      have hiff : (∃ v, some { ({ u with host := host } : Url) with path := path, rawPath := raw } = some v ∧
        v.scheme = [] ∧ v.host = []) ↔
          host = [] := by
        simp [hu.1]
      refine hiff.trans ⟨?_, fun h => ?_⟩
      · rintro rfl ⟨a', heq, -, hne⟩
        cases heq
        exact hne hhost
      · by_contra hne
        exact h ⟨a, rfl, ha, fun h => hne (by rw [hhost] at h; exact Option.some.inj h)⟩
  · rename_i hauth
    obtain ⟨path, raw, hset⟩ := setPath_isSome u hun
    rw [hset]
    refine iff_of_true ⟨_, rfl, hu⟩ ?_
    rintro ⟨a, heq, ha, -⟩
    exact hauth (hasAuthority_nil.2 ⟨a, heq, ha⟩)

theorem parsePath_scheme {v : Url} (h : parsePath parseHost scheme p u = some v) : v.scheme = u.scheme := by
  unfold parsePath at h
  split at h
  · cases h
    rfl
  split at h
  · exact nomatch h
  split at h
  · obtain ⟨host, -, h⟩ := Option.bind_eq_some_iff.1 h
    obtain ⟨path, -, h⟩ := Option.bind_eq_some_iff.1 h
    cases h
    rfl
  · obtain ⟨path, -, h⟩ := Option.bind_eq_some_iff.1 h
    cases h
    rfl

/-- What comes before a query, and the query. -/
theorem cut_query (hp : question ∉ p) (htail : tail.head? = none ∨ tail.head? = some question) :
    (p ++ tail).takeWhile (· ≠ question) = p ∧ (p ++ tail).dropWhile (· ≠ question) = tail := by
  have hpass : ∀ b ∈ p, (decide (b ≠ question)) = true := fun b hb => by
    simpa using fun h : b = question => hp (h ▸ hb)
  rw [List.takeWhile_append_of_pos hpass, List.dropWhile_append_of_pos hpass]
  cases tail with
  | nil => exact ⟨List.append_nil _, rfl⟩
  | cons b rest =>
    have hb : b = question := by simpa using htail
    rw [List.takeWhile_cons_of_neg (by simp [hb]), List.dropWhile_cons_of_neg (by simp [hb]), List.append_nil]
    exact ⟨rfl, rfl⟩

theorem question_not_mem (hpath : ∀ b ∈ p, pathByte b = true) : question ∉ p :=
  fun h => (pathByte_spec (hpath _ h)).1 (by decide)

theorem misread_of_colon (h : colon ∈ p.takeWhile (· ≠ slash)) : Misread parseHost p := by
  refine .inr ⟨fun hslash => ?_, h⟩
  obtain ⟨q, rfl⟩ := List.head?_eq_some_iff.1 hslash
  exact absurd h List.not_mem_nil

/-- A path with a query is read as one of this site unless it is misread. -/
theorem urlParse_target (hpath : ∀ b ∈ p, pathByte b = true) (hne : p ≠ []) (hun : (unescape p).isSome)
    (htail : tail.head? = none ∨ tail.head? = some question)
    (hplain : ∀ b ∈ tail, isCTL b = false ∧ b ≠ hash) :
    (∃ v, urlParse parseHost (p ++ tail) = some v ∧ v.scheme = [] ∧ v.host = []) ↔ ¬ Misread parseHost p := by
  have hall : ∀ b ∈ p ++ tail, isCTL b = false ∧ b ≠ hash := by
    intro b hb
    rcases List.mem_append.1 hb with hb | hb
    · have hb := pathByte_spec (hpath b hb)
      exact ⟨hb.2.1, fun h => hb.1 (by rw [h]; decide)⟩
    · exact hplain b hb
  have hcut : (p ++ tail).takeWhile (· ≠ hash) = p ++ tail :=
    List.takeWhile_eq_self_iff.2 fun b hb => by simpa using (hall b hb).2
  have hfrag : (p ++ tail).dropWhile (· ≠ hash) = [] :=
    List.dropWhile_eq_nil_iff.2 fun b hb => by simpa using (hall b hb).2
  have hparse : urlParse parseHost (p ++ tail) = parse parseHost (p ++ tail) := by
    unfold urlParse
    rw [hcut, hfrag]
    cases parse parseHost (p ++ tail) <;> rfl
  rw [hparse]
  unfold parse
  rw [if_neg fun h => ?_]
  split
  · -- `*` is a path of its own
    rename_i hstar
    obtain ⟨b, q, rfl⟩ := List.exists_cons_of_ne_nil hne
    obtain ⟨rfl, hrest⟩ := List.cons.inj hstar
    obtain ⟨rfl, rfl⟩ := List.append_eq_nil_iff.1 hrest
    refine iff_of_true ⟨_, rfl, rfl, rfl⟩ ?_
    rintro (⟨a, ha, -⟩ | ⟨-, hcolon⟩)
    · cases ha
    · exact absurd hcolon (by decide)
  · have hno : getScheme (p ++ tail) ≠ some ([], p ++ tail) → Misread parseHost p := fun hscheme => by
      by_contra hmis
      exact hscheme (getScheme_path (fun hcolon => hmis (misread_of_colon hcolon)) htail)
    cases hscheme : getScheme (p ++ tail) with
    | none =>
      refine iff_of_false ?_ (not_not.2 (hno (by rw [hscheme]; exact nofun)))
      rintro ⟨v, hv, -⟩
      cases hv
    | some found =>
      obtain ⟨scheme, rest⟩ := found
      by_cases hnil : scheme = []
      · subst hnil
        obtain rfl := getSchemeFrom_nil hscheme
        have hbefore : (p ++ tail).takeWhile (· ≠ question) = p := (cut_query (question_not_mem hpath) htail).1
        show (∃ v, parsePath parseHost [] ((p ++ tail).takeWhile (· ≠ question)) _ = some v ∧ _) ↔ _
        rw [hbefore]
        exact parsePath_local hun ⟨rfl, rfl⟩
      · refine iff_of_false ?_ (not_not.2 (hno fun h => ?_))
        · rintro ⟨v, hv, hempty, -⟩
          rw [parsePath_scheme hv] at hempty
          exact hnil (List.map_eq_nil_iff.1 hempty)
        · rw [hscheme] at h
          cases h
          exact hnil rfl
  · obtain ⟨b, hb, hctl⟩ := List.any_eq_true.1 h
    rw [(hall b hb).1] at hctl
    exact nomatch hctl

/-- A URL with a path is not opaque. -/
theorem urlParse_opaqueData (h : urlParse parseHost s = some ref) (hpath : ref.path ≠ []) : ref.opaqueData = [] := by
  have hset : ∀ {u v : Url} {q : Bytes}, u.opaqueData = [] → u.setPath q = some v → v.opaqueData = [] := by
    intro u v q hu hv
    obtain ⟨path, -, hv⟩ := Option.bind_eq_some_iff.1 hv
    cases hv
    exact hu
  obtain ⟨found, hparse, h⟩ := Option.bind_eq_some_iff.1 h
  obtain ⟨frag, -, h⟩ := Option.bind_eq_some_iff.1 h
  cases h
  unfold parse at hparse
  split at hparse
  · exact nomatch hparse
  split at hparse
  · cases hparse
    rfl
  obtain ⟨⟨scheme, rest⟩, -, hparse⟩ := Option.bind_eq_some_iff.1 hparse
  dsimp only at hparse
  unfold parsePath at hparse
  split at hparse
  · cases hparse
    exact absurd rfl hpath
  split at hparse
  · exact nomatch hparse
  split at hparse
  · obtain ⟨host, -, hparse⟩ := Option.bind_eq_some_iff.1 hparse
    exact hset rfl hparse
  · exact hset rfl hparse

theorem Url.requestURI_eq (hop : u.opaqueData = []) (hpath : u.path ≠ []) :
    u.requestURI = u.escapedPath ++ if u.forceQuery ∨ u.rawQuery ≠ [] then question :: u.rawQuery else [] := by
  unfold requestURI
  rw [if_pos hop, if_neg (u.escapedPath_ne_nil hpath)]
  dsimp only
  split
  · rfl
  · rw [List.append_nil]

theorem queryPlain_pathByte {b : UInt8} (h : queryPlain b = true) : pathByte b = true := by
  unfold queryPlain at h
  unfold pathByte pathPlain
  simp only [Bool.or_eq_true, decide_eq_true_eq] at h ⊢
  rcases h with h | h
  · exact .inr (.inl h)
  · refine .inr (.inr ?_)
    have hsub : bytesOf "-_.~" ⊆ bytesOf "-_.~$&+,/:;=@" := by decide
    exact hsub h

theorem queryPlain_safe : UrlEncoded.Safe queryPlain := by
  unfold UrlEncoded.Safe
  decide +kernel

theorem encodeValues_bytes {kvs : List (Bytes × Bytes)} :
    ∀ b ∈ encodeValues kvs, isCTL b = false ∧ b ≠ hash := by
  intro b hb
  have hbyte : pathByte b = true := by
    rcases UrlEncoded.mem_encode hb with hplain | hmark | ⟨n, hn, rfl⟩
    · exact queryPlain_pathByte hplain
    · simp only [List.mem_cons, List.not_mem_nil, or_false] at hmark
      rcases hmark with rfl | rfl | rfl | rfl <;> decide
    · exact hexDigit_pathByte n hn
  have hspec := pathByte_spec hbyte
  exact ⟨hspec.2.1, fun h => hspec.1 (by rw [h]; decide)⟩

theorem decode_encodeValues {kvs : List (Bytes × Bytes)} {kv : Bytes × Bytes} :
    kv ∈ UrlEncoded.decode (encodeValues kvs) ↔ kv ∈ kvs := by
  unfold encodeValues
  rw [UrlEncoded.decode_encode queryPlain_safe, List.mem_mergeSort]

end Targets

end Go
