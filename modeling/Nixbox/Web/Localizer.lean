/-
The message catalogs of the user interface: which of them a list of preferred locales leads to, and
what a key is shown as. The package's chain asks a locale and then its base language; the one built
asks the base language only where the locale has no catalog.
-/
import Nixbox.Go.Strings
import Nixbox.Lib.Fallback

namespace Nixbox.I18n

open Go Fallback

/-! ## Definitions -/

/-- `DefaultLocale`. -/
def defaultLocale : String := "en"

/-- A flat catalog: the message of a key, if it has one. -/
abbrev Catalog := String → Option String

/-- The loaded catalogs, by normalized locale. -/
structure Bundle where
  catalogs : String → Option Catalog

/-- `Localizer`: the language, and the catalogs it asks in turn. -/
structure Localizer where
  locale : String
  /-- In fallback order. -/
  catalogs : List Catalog

/-- `(*Localizer).Lang`. -/
def Localizer.lang (l : Localizer) : String := l.locale

/-- `(*Localizer).Def`, of no arguments. -/
def Localizer.defMsg (l : Localizer) (key default : String) : String := (l.catalogs.findSome? (· key)).getD default

/-- `(*Localizer).T`, of no arguments. -/
def Localizer.t (l : Localizer) (key : String) : String := l.defMsg key key

/-- `baseLang`: what comes before the first `-` or `_`, if anything does. -/
def baseLang (code : String) : String :=
  match code.toList.takeWhile fun c => c ≠ '-' ∧ c ≠ '_' with
  | [] => code
  | cs => String.ofList cs

/-- The localizer being built, and the locales whose catalogs it has. -/
structure Building where
  loc : Localizer
  seen : List String

namespace Bundle

-- `unicode.ToLower`
variable (lower : Char → Char) (b : Bundle)

/-- `normalize`. -/
def normalize (s : String) : String := String.ofList ((trimSpace s).toList.map lower)

/-- The closure `add` of `Localizer`. -/
def add (s : Building) (pref : String) : Building :=
  let code := normalize lower pref
  if code = "" then s
  else
    let (code, cat) :=
      match b.catalogs code with
      | some cat => (code, some cat)
      | none => if baseLang code ≠ code then (baseLang code, b.catalogs (baseLang code)) else (code, none)
    match cat with
    | none => s
    | some cat =>
      if code ∈ s.seen then s
      else
        { seen := code :: s.seen
          loc :=
            { locale := if s.loc.catalogs.isEmpty then code else s.loc.locale
              catalogs := s.loc.catalogs ++ [cat] } }

/-- `(*Bundle).Localizer`. -/
def localizer (prefs : List String) : Localizer :=
  (b.add lower (prefs.foldl (b.add lower) ⟨⟨defaultLocale, []⟩, []⟩) defaultLocale).loc

/-! The chain of the package's documentation. -/

/-- There is a catalog of the language. -/
def loaded (code : String) : Bool := (b.catalogs code).isSome

/-- What the catalog of a locale says of a key. -/
def msg (key code : String) : Option String := (b.catalogs code).bind (· key)

/-- A preferred locale and its base language; blanks name none. -/
def candidates (pref : String) : List String :=
  let code := normalize lower pref
  if code = "" then [] else [code, baseLang code]

/-- For each preference its own locale and then its base language, and then the default locale. -/
def chain (prefs : List String) : List String := (prefs.map (candidates lower)).flatten ++ [defaultLocale]

/-- The message of the first catalog in the chain that has the key, and the key itself if none has. -/
def documented (prefs : List String) (key : String) : String := answer (b.msg key) key (chain lower prefs)

/-- The catalog that answers in the chain is that of a preference's base language, and the preference
has a catalog of its own, which does not have the key; the best catalogs of the later preferences and the
default one give another message. -/
def SkipsBase (prefs : List String) (key : String) : Prop :=
  PassedOver b.loaded (b.msg key) [defaultLocale] key (prefs.map (candidates lower))

/-- The catalog of a preference's base language is passed over: the preference has a catalog of its own, which
does not have the key, and its base language has one with the key. -/
def PassesBase (key pref : String) : Prop :=
  b.loaded (normalize lower pref) = true ∧ b.msg key (normalize lower pref) = none ∧
    (b.msg key (baseLang (normalize lower pref))).isSome

/-- Two preferences that differ in case and surrounding blanks only. -/
def SameTag (p p' : String) : Prop := (trimSpace p).toList.map lower = (trimSpace p').toList.map lower

/-- A preference names no catalog. -/
def Unknown (p : String) : Prop := ∀ code ∈ candidates lower p, b.loaded code = false

/-! ## What is built -/

/-- The locale whose catalog a preference adds. -/
def matched (pref : String) : Option String := best b.loaded (candidates lower pref)

/-- The locales whose catalogs the localizer has. -/
def kept (prefs : List String) : List String :=
  (prefs.filterMap (b.matched lower) ++ [defaultLocale]).foldl keep []

/-- The localizer of a list of loaded locales. -/
structure Built (s : Building) (codes : List String) : Prop where
  seen : ∀ code, code ∈ s.seen ↔ code ∈ codes
  catalogs : s.loc.catalogs = codes.filterMap b.catalogs
  locale : s.loc.locale = codes.headD defaultLocale
  loaded : ∀ code ∈ codes, b.loaded code = true

section Runs

variable {lower b} {s : Building} {codes prefs : List String} {pref : String}

theorem Built.isEmpty (h : b.Built s codes) : s.loc.catalogs.isEmpty = codes.isEmpty := by
  rw [h.catalogs]
  cases codes with
  | nil => rfl
  | cons code codes =>
    obtain ⟨cat, hcat⟩ := Option.isSome_iff_exists.1 (h.loaded code (List.mem_cons_self ..))
    rw [List.filterMap_cons, hcat]
    rfl

/-- A catalog that is added, unless it is there already. -/
theorem Built.keep {code : String} {cat : Catalog} (h : b.Built s codes) (hcat : b.catalogs code = some cat) :
    b.Built (if code ∈ s.seen then s
      else
        { seen := code :: s.seen
          loc :=
            { locale := if s.loc.catalogs.isEmpty then code else s.loc.locale
              catalogs := s.loc.catalogs ++ [cat] } }) (keep codes code) := by
  unfold Fallback.keep
  by_cases hin : code ∈ codes
  · rw [if_pos ((h.seen code).2 hin), if_pos hin]
    exact h
  · rw [if_neg (mt (h.seen code).1 hin), if_neg hin]
    refine ⟨fun c => ?_, ?_, ?_, fun c hc => ?_⟩
    · rw [List.mem_cons, List.mem_append, List.mem_singleton, h.seen, or_comm]
    · rw [h.catalogs, List.filterMap_append, List.filterMap_cons, hcat]
      rfl
    · rw [h.isEmpty]
      cases codes with
      | nil => rfl
      | cons first rest => exact h.locale
    · rcases List.mem_append.1 hc with hc | hc
      · exact h.loaded c hc
      · rw [List.mem_singleton.1 hc]
        unfold Bundle.loaded
        rw [hcat]
        rfl

theorem matched_eq (hne : normalize lower pref ≠ "") : b.matched lower pref =
    if b.loaded (normalize lower pref) then some (normalize lower pref)
    else if b.loaded (baseLang (normalize lower pref)) then some (baseLang (normalize lower pref)) else none := by
  unfold matched candidates best
  rw [if_neg hne]
  cases hown : b.loaded (normalize lower pref) <;> cases hbase : b.loaded (baseLang (normalize lower pref)) <;>
    simp [hown, hbase]

/-- One preference adds the catalog it is matched with. -/
theorem Built.add (lower : Char → Char) (pref : String) (h : b.Built s codes) :
    b.Built (b.add lower s pref) (match b.matched lower pref with
    | none => codes
    | some code => Fallback.keep codes code) := by
  unfold Bundle.add
  dsimp only
  by_cases hblank : normalize lower pref = ""
  · have hnone : b.matched lower pref = none := by
      unfold matched candidates
      rw [if_pos hblank]
      rfl
    rw [if_pos hblank, hnone]
    exact h
  rw [if_neg hblank, matched_eq hblank]
  cases hown : b.catalogs (normalize lower pref) with
  | some cat =>
    have hloaded : b.loaded (normalize lower pref) = true := by unfold Bundle.loaded; rw [hown]; rfl
    rw [if_pos hloaded]
    exact h.keep hown
  | none =>
    have hloaded : ¬ b.loaded (normalize lower pref) = true := by unfold Bundle.loaded; rw [hown]; exact nofun
    rw [if_neg hloaded]
    by_cases hbase : baseLang (normalize lower pref) = normalize lower pref
    · rw [hbase, if_neg hloaded]
      dsimp only
      rw [if_neg (not_not.2 rfl)]
      exact h
    · dsimp only
      rw [if_pos hbase]
      dsimp only
      unfold Bundle.loaded
      generalize baseLang (normalize lower pref) = base
      cases hcat : b.catalogs base with
      | none => exact h
      | some cat => exact h.keep hcat

/-- All the preferences, in order. -/
theorem Built.foldl (lower : Char → Char) (prefs : List String) (h : b.Built s codes) :
    b.Built (prefs.foldl (b.add lower) s) ((prefs.filterMap (b.matched lower)).foldl Fallback.keep codes) := by
  induction prefs generalizing s codes with
  | nil => exact h
  | cons pref prefs ih =>
    rw [List.foldl_cons, List.filterMap_cons]
    have hstep := h.add lower pref
    cases hm : b.matched lower pref with
    | none =>
      rw [hm] at hstep
      exact ih hstep
    | some code =>
      rw [hm] at hstep
      exact ih hstep

/-- `unicode.ToLower` leaves a lower-case letter as it is. -/
def LowersLetters (lower : Char → Char) : Prop := ∀ c, c.isLower = true → lower c = c

theorem normalize_default (hlower : LowersLetters lower) : normalize lower defaultLocale = defaultLocale := by
  have htrim : (trimSpace defaultLocale).toList = ['e', 'n'] := by decide +kernel
  unfold normalize
  rw [htrim, List.map_cons, List.map_cons, hlower 'e' rfl, hlower 'n' rfl]
  rfl

theorem localizer_eq (hlower : LowersLetters lower) (hdefault : b.loaded defaultLocale = true) :
    b.localizer lower prefs =
      ⟨(b.kept lower prefs).headD defaultLocale, (b.kept lower prefs).filterMap b.catalogs⟩ := by
  have hstart : b.Built ⟨⟨defaultLocale, []⟩, []⟩ [] :=
    ⟨fun _ => Iff.rfl, rfl, rfl, fun _ h => absurd h List.not_mem_nil⟩
  have hmatch : b.matched lower defaultLocale = some defaultLocale := by
    rw [matched_eq (by rw [normalize_default hlower]; decide), normalize_default hlower, if_pos hdefault]
  have hbuilt := (hstart.foldl lower prefs).add lower defaultLocale
  rw [hmatch] at hbuilt
  have hkept : b.kept lower prefs =
      Fallback.keep ((prefs.filterMap (b.matched lower)).foldl Fallback.keep []) defaultLocale := by
    unfold kept
    rw [List.foldl_append]
    rfl
  rw [hkept, ← hbuilt.locale, ← hbuilt.catalogs]
  rfl

end Runs

/-! ## Messages and the locale -/

section Messages

variable {lower b} {prefs pre post : List String} {key p p' : String}

theorem map_matched : prefs.filterMap (b.matched lower) = (prefs.map (candidates lower)).filterMap (best b.loaded) := by
  have hfun : b.matched lower = best b.loaded ∘ candidates lower := funext fun _ => by
    rw [Function.comp_apply, matched]
  rw [List.filterMap_map, hfun]

/-- The catalogs of some locales, asked in order. -/
theorem findSome?_catalogs (codes : List String) :
    (codes.filterMap b.catalogs).findSome? (· key) = codes.findSome? (b.msg key) := by
  induction codes with
  | nil => rfl
  | cons code codes ih =>
    rw [List.filterMap_cons, List.findSome?_cons, msg]
    cases b.catalogs code with
    | none => exact ih
    | some cat =>
      rw [List.findSome?_cons, ih]
      rfl

theorem localizer_t (hlower : LowersLetters lower) (hdefault : b.loaded defaultLocale = true) :
    (b.localizer lower prefs).t key =
      answer (b.msg key) key ((prefs.map (candidates lower)).filterMap (best b.loaded) ++ [defaultLocale]) := by
  rw [localizer_eq hlower hdefault]
  unfold Localizer.t Localizer.defMsg kept answer
  rw [findSome?_catalogs, ← map_matched, findSome?_foldl_keep, List.nil_append]

theorem localizer_lang (hlower : LowersLetters lower) (hdefault : b.loaded defaultLocale = true) :
    (chain lower prefs).find? b.loaded = some (b.localizer lower prefs).lang := by
  have hlast : ∀ code ∈ [defaultLocale], b.loaded code = true := by simpa using hdefault
  have hhead : (b.kept lower prefs).head? = (chain lower prefs).find? b.loaded := by
    unfold kept chain
    rw [head?_foldl_keep, List.nil_append, map_matched]
    exact head?_best hlast
  have hsome : ((chain lower prefs).find? b.loaded).isSome :=
    List.find?_isSome.2 ⟨_, List.mem_append_right _ (List.mem_singleton.2 rfl), hdefault⟩
  rw [localizer_eq hlower hdefault, ← hhead]
  rw [← hhead] at hsome
  show _ = some ((b.kept lower prefs).headD defaultLocale)
  cases hkept : b.kept lower prefs with
  | nil =>
    rw [hkept] at hsome
    exact nomatch hsome
  | cons code codes => rfl

theorem SameTag.matched (h : SameTag lower p p') : b.matched lower p = b.matched lower p' := by
  have hnorm : normalize lower p = normalize lower p' := congrArg String.ofList h
  unfold Bundle.matched candidates
  rw [hnorm]

theorem Unknown.matched (h : b.Unknown lower p) : b.matched lower p = none :=
  List.find?_eq_none.2 fun code hcode => by rw [h code hcode]; exact nofun

/-- A preference in another spelling. -/
theorem localizer_sameTag (hlower : LowersLetters lower) (hdefault : b.loaded defaultLocale = true)
    (h : SameTag lower p p') : b.localizer lower (pre ++ p :: post) = b.localizer lower (pre ++ p' :: post) := by
  have hkept : b.kept lower (pre ++ p :: post) = b.kept lower (pre ++ p' :: post) := by
    unfold kept
    rw [List.filterMap_append, List.filterMap_append, List.filterMap_cons, List.filterMap_cons, h.matched]
  rw [localizer_eq hlower hdefault, localizer_eq hlower hdefault, hkept]

theorem localizer_unknown (hlower : LowersLetters lower) (hdefault : b.loaded defaultLocale = true)
    (h : b.Unknown lower p) : b.localizer lower (pre ++ p :: post) = b.localizer lower (pre ++ post) := by
  have hkept : b.kept lower (pre ++ p :: post) = b.kept lower (pre ++ post) := by
    unfold kept
    rw [List.filterMap_append, List.filterMap_append, List.filterMap_cons, h.matched]
  rw [localizer_eq hlower hdefault, localizer_eq hlower hdefault, hkept]

theorem localizer_repeated (hlower : LowersLetters lower) (hdefault : b.loaded defaultLocale = true)
    (h : ∃ q ∈ pre, SameTag lower q p) :
    b.localizer lower (pre ++ p :: post) = b.localizer lower (pre ++ post) := by
  obtain ⟨q, hq, hsame⟩ := h
  have hkept : b.kept lower (pre ++ p :: post) = b.kept lower (pre ++ post) := by
    unfold kept
    rw [List.filterMap_append, List.filterMap_append, List.filterMap_cons]
    cases hm : b.matched lower p with
    | none => rfl
    | some code =>
      have hin : code ∈ pre.filterMap (b.matched lower) := List.mem_filterMap.2 ⟨q, hq, hsame.matched.trans hm⟩
      dsimp only
      rw [List.append_assoc, List.append_assoc, List.cons_append]
      exact foldl_keep_repeated _ hin
  rw [localizer_eq hlower hdefault, localizer_eq hlower hdefault, hkept]

theorem msg_of_not_loaded {code : String} (h : b.loaded code = false) : b.msg key code = none := by
  unfold loaded at h
  unfold msg
  rw [Option.isNone_iff_eq_none.1 (Option.isSome_eq_false_iff.1 h)]
  rfl

theorem passesBase_of_group {pref m : String} (hbest : (best b.loaded (candidates lower pref)).bind (b.msg key) = none)
    (hm : (candidates lower pref).findSome? (b.msg key) = some m) : b.PassesBase lower key pref := by
  unfold candidates best at hbest
  unfold candidates at hm
  dsimp only at hbest hm
  split at hm
  · cases hm
  rename_i hne
  rw [if_neg hne] at hbest
  rw [List.findSome?_cons] at hm
  rw [List.find?_cons] at hbest
  cases hown : b.loaded (normalize lower pref) with
  | true =>
    -- its own catalog is asked, which does not have the key
    rw [hown] at hbest
    have hsilent : b.msg key (normalize lower pref) = none := hbest
    rw [hsilent, List.findSome?_cons] at hm
    refine ⟨hown, hsilent, ?_⟩
    cases hbase : b.msg key (baseLang (normalize lower pref)) with
    | some m' => rfl
    | none =>
      rw [hbase] at hm
      cases hm
  | false =>
    -- the base language is asked, and says what the group says
    rw [hown, List.find?_cons] at hbest
    rw [msg_of_not_loaded hown, List.findSome?_cons] at hm
    cases hbase : b.loaded (baseLang (normalize lower pref)) with
    | true =>
      rw [hbase] at hbest
      rw [show b.msg key (baseLang (normalize lower pref)) = none from hbest] at hm
      cases hm
    | false =>
      rw [msg_of_not_loaded hbase] at hm
      cases hm

/-- Where no base catalog is passed over, the message is the documented one. -/
theorem localizer_documented (hlower : LowersLetters lower) (hdefault : b.loaded defaultLocale = true)
    (h : ∀ pref ∈ prefs, ¬ b.PassesBase lower key pref) :
    (b.localizer lower prefs).t key = b.documented lower prefs key := by
  rw [localizer_t hlower hdefault]
  refine (answer_best_iff fun _ => msg_of_not_loaded).2 fun hover => ?_
  obtain ⟨group, hgroup, hbest, m, hm⟩ := hover.answered
  obtain ⟨pref, hpref, rfl⟩ := List.mem_map.1 hgroup
  exact h pref hpref (passesBase_of_group hbest hm)

/-- The message is the documented one unless the catalog of a base language is skipped; the locale is
the first in the chain that is loaded, and the spelling of a preference, an unknown one and a repeated
one make no difference. -/
theorem localizer_spec (hlower : LowersLetters lower) (hdefault : b.loaded defaultLocale = true) :
    ((b.localizer lower prefs).t key = b.documented lower prefs key ∧
      (chain lower prefs).find? b.loaded = some (b.localizer lower prefs).lang ∧
      ∀ pre p post, prefs = pre ++ p :: post →
        (∀ p', SameTag lower p p' → b.localizer lower (pre ++ p' :: post) = b.localizer lower prefs) ∧
        (b.Unknown lower p ∨ (∃ q ∈ pre, SameTag lower q p) →
          b.localizer lower (pre ++ post) = b.localizer lower prefs)) ↔
      ¬ b.SkipsBase lower prefs key := by
  have hmsg : (b.localizer lower prefs).t key = b.documented lower prefs key ↔ ¬ b.SkipsBase lower prefs key := by
    rw [localizer_t hlower hdefault]
    exact answer_best_iff fun _ => msg_of_not_loaded
  refine ⟨fun h => hmsg.1 h.1, fun h => ⟨hmsg.2 h, localizer_lang hlower hdefault, ?_⟩⟩
  rintro pre p post rfl
  refine ⟨fun p' hsame => (localizer_sameTag hlower hdefault hsame).symm, ?_⟩
  rintro (hunknown | hrepeated)
  · exact (localizer_unknown hlower hdefault hunknown).symm
  · exact (localizer_repeated hlower hdefault hrepeated).symm

end Messages

/-- The bundle of some catalogs. -/
def ofList (cats : List (String × List (String × String))) : Bundle :=
  ⟨fun code => (cats.lookup code).map fun msgs key => msgs.lookup key⟩

theorem lowersLetters_toLower : LowersLetters Char.toLower := by
  intro c hc
  have hc : (decide (97 ≤ c.val) && decide (c.val ≤ 122)) = true := hc
  rw [Bool.and_eq_true, decide_eq_true_iff, decide_eq_true_iff] at hc
  unfold Char.toLower
  rw [dif_neg]
  intro h
  have h1 := UInt32.le_iff_toNat_le.1 hc.1
  have h2 := UInt32.le_iff_toNat_le.1 h.2
  exact absurd (Nat.le_trans h1 h2) (by decide)

/-- Two catalogs. -/
def testBundle : Bundle := ofList [("en", [("greet", "Hello"), ("count", "%d items")]), ("de", [("greet", "Hallo")])]

theorem localizer_spec_de : (testBundle.localizer Char.toLower ["de-AT"]).t "greet" =
    testBundle.documented Char.toLower ["de-AT"] "greet" := by
  refine ((localizer_spec lowersLetters_toLower (by decide)).2 ?_).1
  unfold SkipsBase
  rw [List.map_cons, passedOver_cons]
  rintro (⟨hbest, -⟩ | ⟨hnone, -⟩)
  · exact absurd hbest (by decide +kernel)
  · exact absurd hnone (by decide +kernel)

/-- A regional catalog without the key in front of the one of its base language. -/
def regionalBundle : Bundle := ofList [("en", [("greet", "Hello")]), ("pt", [("greet", "Olá")]), ("pt-br", [])]

theorem localizer_skips : ¬ ∀ (lower : Char → Char) (b : Bundle) (prefs : List String) (key : String),
    LowersLetters lower → b.loaded defaultLocale = true →
      (b.localizer lower prefs).t key = b.documented lower prefs key := by
  intro hall
  have hmsg := hall Char.toLower regionalBundle ["pt-BR"] "greet" lowersLetters_toLower (by decide)
  exact absurd hmsg (by decide +kernel)

end Bundle

end Nixbox.I18n
