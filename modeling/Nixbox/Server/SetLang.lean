/-
The language picker: where it leads back to. The page it was on is taken from the Referer, its path
and its query only; a path that begins with two slashes is a host to whoever reads it next.
-/
import Nixbox.Go.Url
import Nixbox.Auth.Redirect

namespace Nixbox.Server

open Go Auth
open UrlEncoded (Bytes)

/-! ## Definitions -/

/-- A byte as a character. -/
def toChar (b : UInt8) : Char := Char.ofNat b.toNat

/-- The text of bytes below U+0100, a character each. -/
def latin1 (s : Bytes) : String := String.ofList (s.map toChar)

/-- The parameter `lang`. -/
def langKey : Bytes := bytesOf "lang"

/-- What the handler answers: the locale it stores in the cookie, and the Location. -/
structure LangAnswer where
  cookie : Option String
  location : String

section Handler

-- how a host is parsed
variable (parseHost : Bytes → Bytes → Option Bytes)

/-- The path and the query of the referring page, without its `lang`. -/
def back (referer : Bytes) : Bytes :=
  match urlParse parseHost referer with
  | none => [slash]
  | some ref =>
    if ref.path ≠ [] then
      let q := (UrlEncoded.decode ref.rawQuery).filter fun kv => kv.1 ≠ langKey
      { ref with rawQuery := encodeValues q }.requestURI
    else [slash]

/-- `url.Parse` as `http.Redirect` calls it. -/
def parseTarget (target : String) : Option URL :=
  (urlParse parseHost (bytesOf target)).map fun u => ⟨latin1 u.scheme, latin1 u.host⟩

/-- `handleSetLang`, for the locales of the bundle, the form value `lang` and the Referer. -/
def handleSetLang (locales : List String) (lang : String) (referer : Bytes) : LangAnswer where
  cookie := if lang ∈ locales then some lang else none
  location := redirect (parseTarget parseHost) "/lang" (latin1 (back parseHost referer))

/-- The pairs of a Location's query. -/
def queryPairs (loc : String) : List (Bytes × Bytes) :=
  UrlEncoded.decode (((bytesOf loc).dropWhile (· ≠ question)).drop 1)

/-- The referring page has a path, and on its own that path is read as something else. -/
def LeavesSite (ref : Url) : Prop := ref.path ≠ [] ∧ Misread parseHost ref.escapedPath

end Handler

/-! ## Bytes as characters -/

section Characters

variable {b : UInt8} {s : Bytes}

theorem toNat_toChar (b : UInt8) : (toChar b).toNat = b.toNat := by
  have hall : ∀ n < 256, (Char.ofNat n).toNat = n := by decide +kernel
  exact hall b.toNat b.toNat_lt

theorem toChar_injective : Function.Injective toChar := by
  intro b c h
  have hnat := congrArg Char.toNat h
  rw [toNat_toChar, toNat_toChar] at hnat
  exact UInt8.toNat_inj.1 hnat

theorem bytesOf_latin1 (s : Bytes) : bytesOf (latin1 s) = s := by
  unfold bytesOf latin1
  rw [String.toList_ofList, List.map_map]
  have hid : ((fun c : Char => c.toNat.toUInt8) ∘ toChar) = id := funext fun b => by
    show (toChar b).toNat.toUInt8 = b
    rw [toNat_toChar]
    exact UInt8.ofNat_toNat
  rw [hid, List.map_id]

theorem bytesOf_append (s t : String) : bytesOf (s ++ t) = bytesOf s ++ bytesOf t := by
  unfold bytesOf
  rw [String.toList_append, List.map_append]

theorem latin1_eq_empty : latin1 s = "" ↔ s = [] := by
  refine ⟨fun h => ?_, fun h => by rw [h]; rfl⟩
  rw [← bytesOf_latin1 s, h]
  rfl

theorem toChar_ne : (fun c => decide (c ≠ '?')) ∘ toChar = fun b => decide (b ≠ question) := funext fun b => by
  have hq : toChar question = '?' := rfl
  show decide (toChar b ≠ '?') = decide (b ≠ question)
  simp only [← hq, ne_eq, toChar_injective.eq_iff]

/-- A character that stands in the text of path bytes: no control character, no backslash, no `?`. -/
theorem pathByte_toChar (h : pathByte b = true) :
    isControl (toChar b) = false ∧ toChar b ≠ '\\' ∧ toChar b ≠ '?' := by
  have hall : ∀ n < 256, pathByte n.toUInt8 = true →
      isControl (toChar n.toUInt8) = false ∧ toChar n.toUInt8 ≠ '\\' ∧ toChar n.toUInt8 ≠ '?' := by
        decide +kernel
  have hb := hall b.toNat b.toNat_lt
  rw [show b.toNat.toUInt8 = b from UInt8.ofNat_toNat] at hb
  exact hb h

/-- What is cleaned has no characters of its own but slashes. -/
theorem mem_cleanKeepingSlash {cs : List Char} {c : Char} (h : c ∈ cleanKeepingSlash ('/' :: cs)) :
    c = '/' ∨ c ∈ cs := by
  have hclean : ∀ c ∈ pathClean ('/' :: cs), c = '/' ∨ c ∈ cs := by
    intro c h
    rcases List.mem_cons.1 h with rfl | h
    · exact .inl rfl
    · exact (UrlEncoded.mem_intercalate h).imp_right fun ⟨seg, hseg, hc⟩ =>
        mem_of_mem_splitOn (mem_cleanSegments hseg) hc
  unfold cleanKeepingSlash at h
  dsimp only at h
  split at h
  · rcases List.mem_append.1 h with h | h
    · exact hclean c h
    · exact .inl (List.mem_singleton.1 h)
  · exact hclean c h

end Characters

/-! ## Where a target leads -/

section Targets

variable {parseHost : Bytes → Bytes → Option Bytes} {p tail target : Bytes}

theorem parseTarget_latin1 : parseTarget parseHost (latin1 target) =
    (urlParse parseHost target).map fun u => ⟨latin1 u.scheme, latin1 u.host⟩ := by
  unfold parseTarget
  rw [bytesOf_latin1]

theorem redirect_foreign (h : ¬ ∃ v, urlParse parseHost target = some v ∧ v.scheme = [] ∧ v.host = []) :
    redirect (parseTarget parseHost) "/lang" (latin1 target) = latin1 target := by
  unfold redirect
  rw [parseTarget_latin1]
  cases hparse : urlParse parseHost target with
  | none => rfl
  | some v =>
    rw [Option.map_some]
    dsimp only
    rw [if_neg fun hlocal => h ⟨v, hparse, latin1_eq_empty.1 hlocal.1, latin1_eq_empty.1 hlocal.2⟩]

/-- A target of this site is cleaned, from the root. -/
theorem redirect_local (hpath : ∀ b ∈ p, pathByte b = true) (hne : p ≠ [])
    (htail : tail.head? = none ∨ tail.head? = some question)
    (h : ∃ v, urlParse parseHost (p ++ tail) = some v ∧ v.scheme = [] ∧ v.host = []) :
    ∃ q : Bytes, (∀ b ∈ q, pathByte b = true) ∧ redirect (parseTarget parseHost) "/lang" (latin1 (p ++ tail)) =
      String.ofList (cleanKeepingSlash ('/' :: q.map toChar) ++ tail.map toChar) := by
  obtain ⟨v, hparse, hscheme, hhost⟩ := h
  have hlocal : parseTarget parseHost (latin1 (p ++ tail)) = some ⟨"", ""⟩ := by
    rw [parseTarget_latin1, hparse, Option.map_some, hscheme, hhost]
    rfl
  -- an absolute path is kept, a relative one hangs below the root
  obtain ⟨q, hq, hfull⟩ : ∃ q : Bytes, (∀ b ∈ q, pathByte b = true) ∧
      (if ((p ++ tail).map toChar).head? = some '/' then (p ++ tail).map toChar
        else pathDir "/lang".toList ++ (p ++ tail).map toChar) = (slash :: q ++ tail).map toChar := by
    obtain ⟨b, q, rfl⟩ := List.exists_cons_of_ne_nil hne
    by_cases hb : b = slash
    · exact ⟨q, fun b hb => hpath b (List.mem_cons_of_mem _ hb), by rw [hb]; rfl⟩
    · have hhead : ((b :: q ++ tail).map toChar).head? ≠ some '/' :=
        fun h => hb (toChar_injective (Option.some.inj h))
      exact ⟨b :: q, hpath, by rw [if_neg hhead]; rfl⟩
  have hslash : ∀ b ∈ slash :: q, pathByte b = true := by
    intro b hb
    rcases List.mem_cons.1 hb with rfl | hb
    · decide
    · exact hq b hb
  refine ⟨q, hq, ?_⟩
  unfold redirect
  rw [hlocal]
  dsimp only
  have hcut := cut_query (question_not_mem hslash) htail
  have hroot : (if "/lang" = "" then "/" else "/lang") = "/lang" := rfl
  rw [if_pos ⟨rfl, rfl⟩, latin1, String.toList_ofList, hroot, hfull, List.takeWhile_map,
    List.dropWhile_map, toChar_ne, hcut.1, hcut.2]
  rfl

/-- A path with a query, after the redirect: the query is as it was. -/
theorem redirect_query (hpath : ∀ b ∈ p, pathByte b = true) (hne : p ≠ [])
    (htail : tail.head? = none ∨ tail.head? = some question) :
    queryPairs (redirect (parseTarget parseHost) "/lang" (latin1 (p ++ tail))) = UrlEncoded.decode (tail.drop 1) := by
  unfold queryPairs
  by_cases hlocal : ∃ v, urlParse parseHost (p ++ tail) = some v ∧ v.scheme = [] ∧ v.host = []
  · obtain ⟨q, hq, heq⟩ := redirect_local hpath hne htail hlocal
    have hbytes : bytesOf (String.ofList (cleanKeepingSlash ('/' :: q.map toChar) ++ tail.map toChar)) =
        bytesOf (String.ofList (cleanKeepingSlash ('/' :: q.map toChar))) ++ tail := by
      have htailBytes : bytesOf (String.ofList (tail.map toChar)) = tail := bytesOf_latin1 tail
      rw [String.ofList_append, bytesOf_append, htailBytes]
    have hquestion : question ∉ bytesOf (String.ofList (cleanKeepingSlash ('/' :: q.map toChar))) := by
      intro h
      obtain ⟨c, hc, hb⟩ := List.mem_map.1 h
      rw [String.toList_ofList] at hc
      rcases mem_cleanKeepingSlash hc with rfl | hc
      · exact absurd hb (by decide)
      · obtain ⟨b, hbq, rfl⟩ := List.mem_map.1 hc
        rw [toNat_toChar, show b.toNat.toUInt8 = b from UInt8.ofNat_toNat] at hb
        exact question_not_mem hq (hb ▸ hbq)
    rw [heq, hbytes, (cut_query hquestion htail).2]
  · rw [redirect_foreign hlocal, bytesOf_latin1, (cut_query (question_not_mem hpath) htail).2]

/-- A target that does not begin with a slash leaves the site. -/
theorem latin1_leaves {b : UInt8} {s : Bytes} (hb : pathByte b = true) (hne : b ≠ slash) :
    ¬ staysOnSite (latin1 (b :: s)) = true := by
  have hchar := pathByte_toChar hb
  have hslash : toChar b ≠ '/' := fun h => hne (toChar_injective h)
  unfold staysOnSite browserRead latin1
  rw [String.toList_ofList, List.map_cons, List.filter_cons_of_pos (by simpa using not_control_kept hchar.1),
    List.map_cons, if_neg hchar.2.1]
  split
  · rename_i heq
    exact absurd (List.cons.inj heq).1 hslash
  · rename_i heq
    exact absurd (List.cons.inj heq).1 hslash
  · exact nofun

/-- A path with a query stays on the site, as the redirect sends it, unless it is misread. -/
theorem redirect_staysOnSite (hpath : ∀ b ∈ p, pathByte b = true) (hne : p ≠ [])
    (hun : (Percent.unescape p).isSome) (htail : tail.head? = none ∨ tail.head? = some question)
    (hplain : ∀ b ∈ tail, isCTL b = false ∧ b ≠ hash) :
    staysOnSite (redirect (parseTarget parseHost) "/lang" (latin1 (p ++ tail))) = true ↔ ¬ Misread parseHost p := by
  have hparse : _ ↔ ¬ Misread parseHost p := urlParse_target hpath hne hun htail hplain
  by_cases hmis : Misread parseHost p
  · rw [redirect_foreign fun h => hparse.1 h hmis]
    refine iff_of_false ?_ (not_not.2 hmis)
    rcases hmis with ⟨a, rfl, -⟩ | ⟨hslash, -⟩
    · have hslashes : latin1 (slash :: slash :: a ++ tail) = String.ofList ('/' :: '/' :: (a ++ tail).map toChar) :=
        rfl
      rw [hslashes, staysOnSite_slash fun c hc => by cases hc; rfl]
      exact fun h => h.1 rfl
    · obtain ⟨b, q, rfl⟩ := List.exists_cons_of_ne_nil hne
      exact latin1_leaves (hpath b (List.mem_cons_self ..)) fun h => hslash (by rw [h]; rfl)
  · obtain ⟨q, hq, heq⟩ := redirect_local hpath hne htail (hparse.2 hmis)
    have hchar : ∀ c ∈ q.map toChar, isControl c = false ∧ c ≠ '\\' := by
      intro c hc
      obtain ⟨b, hb, rfl⟩ := List.mem_map.1 hc
      exact ⟨(pathByte_toChar (hq b hb)).1, (pathByte_toChar (hq b hb)).2.1⟩
    have hquery : ∀ c, (tail.map toChar).head? = some c → c = '?' := by
      intro c hc
      cases tail with
      | nil => cases hc
      | cons b rest =>
        have hb : b = question := by simpa using htail
        cases hc
        rw [hb]
        rfl
    rw [heq, cleaned_staysOnSite (fun c hc => (hchar c hc).1) hquery]
    refine iff_of_true ?_ hmis
    rintro ⟨seg, hseg, hback⟩
    exact (hchar _ (mem_of_mem_splitOn hseg.mem (List.mem_of_mem_head? hback))).2 rfl

theorem not_misread_root : ¬ Misread parseHost [slash] := by
  rintro (⟨a, ha, -⟩ | ⟨hslash, -⟩)
  · cases ha
  · exact hslash rfl

theorem redirect_root : staysOnSite (redirect (parseTarget parseHost) "/lang" (latin1 [slash])) = true ∧
    ∀ kv ∈ queryPairs (redirect (parseTarget parseHost) "/lang" (latin1 [slash])), kv.1 ≠ langKey := by
  have hbytes : ∀ b ∈ [slash], pathByte b = true := List.forall_mem_singleton.2 (by decide)
  have hne : [slash] ≠ [] := List.cons_ne_nil _ _
  have hplain : ∀ b ∈ ([] : Bytes), isCTL b = false ∧ b ≠ Go.hash := nofun
  have hstays : staysOnSite (redirect (parseTarget parseHost) "/lang" (latin1 ([slash] ++ []))) = true ↔ _ :=
    redirect_staysOnSite hbytes hne rfl (.inl rfl) hplain
  have hquery : queryPairs (redirect (parseTarget parseHost) "/lang" (latin1 ([slash] ++ []))) = _ :=
    redirect_query hbytes hne (.inl rfl)
  refine ⟨hstays.2 not_misread_root, fun kv hkv => ?_⟩
  rw [← List.append_nil [slash], hquery] at hkv
  exact absurd hkv List.not_mem_nil

end Targets

/-! ## The answer of the picker -/

section Answers

variable {parseHost : Bytes → Bytes → Option Bytes} {locales : List String}
  {lang : String} {referer : Bytes} {ref : Url}

/-- The target is the path of the referring page with a query that has no `lang`. -/
theorem back_eq (h : urlParse parseHost referer = some ref) (hpath : ref.path ≠ []) : ∃ tail : Bytes,
    back parseHost referer = ref.escapedPath ++ tail ∧ (tail.head? = none ∨ tail.head? = some question) ∧
      (∀ b ∈ tail, isCTL b = false ∧ b ≠ hash) ∧
      ∀ kv ∈ UrlEncoded.decode (tail.drop 1), kv.1 ≠ langKey := by
  have hop := urlParse_opaqueData h hpath
  unfold back
  rw [h]
  dsimp only
  rw [if_pos hpath]
  generalize hq : (UrlEncoded.decode ref.rawQuery).filter (fun kv => kv.1 ≠ langKey) = q
  have hpairs : ∀ kv ∈ UrlEncoded.decode (encodeValues q), kv.1 ≠ langKey := by
    intro kv hkv
    rw [decode_encodeValues, ← hq] at hkv
    simpa using (List.mem_filter.1 hkv).2
  refine ⟨_, Url.requestURI_eq (u := { ref with rawQuery := encodeValues q }) hop hpath, ?_⟩
  split
  · refine ⟨.inr rfl, fun b hb => ?_, hpairs⟩
    rcases List.mem_cons.1 hb with rfl | hb
    · decide
    · exact encodeValues_bytes b hb
  · exact ⟨.inl rfl, fun b hb => absurd hb List.not_mem_nil, fun kv hkv => absurd hkv List.not_mem_nil⟩

/-- The Location never carries `lang`, and stays on the site unless the path of the referring page is
misread. -/
theorem handleSetLang_spec (h : urlParse parseHost referer = some ref) :
    (staysOnSite (handleSetLang parseHost locales lang referer).location = true ∧
      ∀ kv ∈ queryPairs (handleSetLang parseHost locales lang referer).location, kv.1 ≠ langKey) ↔
        ¬ LeavesSite parseHost ref := by
  unfold handleSetLang LeavesSite
  dsimp only
  by_cases hpath : ref.path = []
  · have hback : back parseHost referer = [slash] := by
      unfold back
      rw [h]
      exact if_neg (not_not.2 hpath)
    rw [hback]
    exact iff_of_true redirect_root fun hleaves => hleaves.1 hpath
  · obtain ⟨tail, heq, htail, hplain, hpairs⟩ := back_eq h hpath
    have hbytes := ref.escapedPath_bytes
    have hne := ref.escapedPath_ne_nil hpath
    have hun : (Percent.unescape ref.escapedPath).isSome := by rw [ref.unescape_escapedPath]; rfl
    rw [heq, redirect_staysOnSite hbytes hne hun htail hplain, redirect_query hbytes hne htail]
    exact ⟨fun hstays hleaves => hstays.1 hleaves.2, fun hleaves =>
      ⟨fun hmis => hleaves ⟨hpath, hmis⟩, hpairs⟩⟩

end Answers

/-- A host of letters, digits and dots is itself. -/
def plainHost (_ host : Bytes) : Option Bytes :=
  if host.all fun b => isLetter b || isDigit b || b == dot then some host else none

/-- A page whose address picks a language. -/
def systemReferer : Bytes := bytesOf "http://example.com/system?lang=ro&x=1"

/-- The page of the system. -/
def systemPage : Url where
  scheme := bytesOf "http"
  host := bytesOf "example.com"
  path := bytesOf "/system"
  rawQuery := bytesOf "lang=ro&x=1"

theorem handleSetLang_spec_system :
    staysOnSite (handleSetLang plainHost ["en"] "en" systemReferer).location = true ∧
      ∀ kv ∈ queryPairs (handleSetLang plainHost ["en"] "en" systemReferer).location, kv.1 ≠ langKey := by
  have hparse : urlParse plainHost systemReferer = some systemPage := by decide +kernel
  refine (handleSetLang_spec hparse).2 ?_
  have hpath : systemPage.escapedPath = bytesOf "/system" := by decide +kernel
  rintro ⟨-, hmis⟩
  rw [hpath] at hmis
  rcases hmis with ⟨a, ha, -⟩ | ⟨hslash, -⟩
  · cases (List.cons.inj (List.cons.inj ha).2).1
  · exact hslash rfl

/-- A page whose path begins with a second slash. -/
def slashesReferer : Bytes := bytesOf "http://x//evil.com/"

/-- A page whose path begins with two slashes. -/
def slashesPage : Url where
  scheme := bytesOf "http"
  host := bytesOf "x"
  path := bytesOf "//evil.com/"

theorem handleSetLang_leavesSite :
    ¬ ∀ (parseHost : Bytes → Bytes → Option Bytes) (locales : List String) (lang : String)
    (referer : Bytes) (ref : Url), urlParse parseHost referer = some ref →
      staysOnSite (handleSetLang parseHost locales lang referer).location = true ∧
        ∀ kv ∈ queryPairs (handleSetLang parseHost locales lang referer).location, kv.1 ≠ langKey := by
  intro hall
  have hparse : urlParse plainHost slashesReferer = some slashesPage := by decide +kernel
  have hstays := (hall plainHost ["en"] "en" slashesReferer slashesPage hparse).1
  exact absurd hstays (by decide +kernel)

end Nixbox.Server
