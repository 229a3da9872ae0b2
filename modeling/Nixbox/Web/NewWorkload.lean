/-
The form of a new workload: its ID is derived from the display name until the user edits it by hand. A derived ID is
always one the server takes for the type that is selected, and one typed by hand is left alone.
-/
import Nixbox.Nix.NamePatterns
import Nixbox.Server.Workloads

namespace Nixbox.Web

open Nix Server

/-! ## Deriving an ID -/

/-- Each run of characters that are no letters or digits becomes one dash; `inRun` if one of the run came before. -/
def dashRuns (inRun : Bool) : List Char → List Char
  | [] => []
  | c :: cs =>
    if isAlnum c then c :: dashRuns false cs
    else if inRun then dashRuns true cs
    else '-' :: dashRuns true cs

/-- Without the dashes at the end. -/
def trimDashes (cs : List Char) : List Char := (cs.reverse.dropWhile (· = '-')).reverse

/-- A combining diacritical mark. -/
def isDiacritic (c : Char) : Bool := 0x300 ≤ c.toNat && c.toNat ≤ 0x36f

/-- What the browser's strings offer: `normalize("NFKD")` and `toLowerCase`. -/
structure Strings where
  normalize : String → String
  toLowerCase : String → String

/-- `slugify`. -/
def slugify (js : Strings) (s : String) (max : Nat) : String :=
  let cs := (js.toLowerCase (String.ofList ((js.normalize s).toList.filter fun c => !isDiacritic c))).toList
  String.ofList (trimDashes (((dashRuns false cs).dropWhile (· = '-')).take max))

/-! ## The form -/

/-- The state of the form: the values of its fields, what `data-auto` of the ID holds, and the type that is
selected, whose length the ID may have. -/
structure NewWorkload where
  displayName : String
  name : String
  auto : Option String
  type : Registration

/-- What the user does: typing in the display name or in the ID, and selecting a type. -/
inductive NewWorkloadEvent
  | displayName (value : String)
  | name (value : String)
  | type (wt : Registration)

namespace NewWorkload

variable (js : Strings) (f : NewWorkload)

/-- The form as it is rendered, with the values it was posted with if it comes back with an error. -/
def rendered (displayName name : String) (wt : Registration) : NewWorkload := ⟨displayName, name, none, wt⟩

/-- The ID is the one derived from `s`. -/
def derive (s : String) : NewWorkload :=
  let id := slugify js s f.type.nameMaxLen
  { f with name := id, auto := some id }

/-- What the listeners do. -/
def step : NewWorkloadEvent → NewWorkload
  | .displayName value =>
    let f := { f with displayName := value }
    if f.name ≠ "" ∧ f.auto ≠ some f.name then f else f.derive js value
  | .name value => { f with name := value, auto := none }
  | .type wt =>
    let f := { f with type := wt }
    if f.name ≠ "" ∧ f.auto = some f.name then f.derive js f.name else f

/-- So many events. -/
def run (es : List NewWorkloadEvent) : NewWorkload := es.foldl (step js) f

/-- The server takes the ID: trimmed, it passes the name check of the type that is selected. -/
def Accepted : Prop := (lookup f.type.id).map (·.validateName (Go.trimSpace f.name)) = some (.ok ())

end NewWorkload

/-! ## What is derived -/

section Slugs

variable {js : Strings} {s : String} {cs : List Char} {c : Char} {max : Nat} {b : Bool}

theorem mem_dashRuns (h : c ∈ dashRuns b cs) : (isAlnum c || c == '-') = true := by
  induction cs generalizing b with
  | nil => cases h
  | cons d cs ih =>
    unfold dashRuns at h
    split at h
    · rename_i hd
      rcases List.mem_cons.1 h with rfl | h
      · rw [hd]
        rfl
      · exact ih h
    · split at h
      · exact ih h
      · rcases List.mem_cons.1 h with rfl | h
        · rfl
        · exact ih h

theorem trimDashes_prefix : trimDashes cs <+: cs := by
  have h := List.reverse_prefix.2 (List.dropWhile_suffix (l := cs.reverse) (p := (· = '-')))
  rw [List.reverse_reverse] at h
  exact h

/-- What is left behind dashes does not begin with one. -/
theorem dropDashes_head {t : List Char} (h : cs.dropWhile (· = '-') = c :: t) : c ≠ '-' := by
  have hhead := List.head?_dropWhile_not (· = '-') cs
  rw [h] at hhead
  exact of_decide_eq_false hhead

theorem trimDashes_last {inner : List Char} (h : trimDashes cs = inner ++ [c]) : c ≠ '-' := by
  have hrev : cs.reverse.dropWhile (· = '-') = c :: inner.reverse := by
    rw [← List.reverse_concat, ← h, trimDashes, List.reverse_reverse]
  exact dropDashes_head hrev

theorem isAlnum_of_ne (h : (isAlnum c || c == '-') = true) (hc : c ≠ '-') : isAlnum c = true :=
  (Bool.or_eq_true_iff.1 h).resolve_right fun hdash => hc (beq_iff_eq.1 hdash)

/-- What is derived is empty, or a name of the shared rule that is no longer than asked for. -/
theorem slugify_spec (hmax : max ≤ 63) : slugify js s max = "" ∨
    nameRe 61 (slugify js s max) = true ∧ (slugify js s max).length ≤ max := by
  rw [nameRe_shape, ← String.length_toList]
  unfold slugify
  generalize (js.toLowerCase _).toList = cs
  dsimp only
  rw [String.toList_ofList]
  generalize hkept : (dashRuns false cs).dropWhile (· = '-') = kept
  have hsub : trimDashes (kept.take max) <+: kept := trimDashes_prefix.trans (List.take_prefix _ _)
  have hchars : ∀ c ∈ trimDashes (kept.take max), (isAlnum c || c == '-') = true := by
    intro c hc
    have hmem : c ∈ (dashRuns false cs).dropWhile (· = '-') := hkept ▸ hsub.subset hc
    exact mem_dashRuns ((List.dropWhile_suffix _).subset hmem)
  have hlen : (trimDashes (kept.take max)).length ≤ max :=
    trimDashes_prefix.length_le.trans (List.length_take_le _ _)
  generalize hid : trimDashes (kept.take max) = id at *
  cases id with
  | nil => exact .inl rfl
  | cons c t =>
    refine .inr ⟨⟨c, t, rfl, ?_, ?_⟩, hlen⟩
    · obtain ⟨rest, hrest⟩ := hsub
      exact isAlnum_of_ne (hchars c (List.mem_cons_self ..)) (dropDashes_head (hkept.trans hrest.symm))
    · rcases List.eq_nil_or_concat t with rfl | ⟨inner, last, hsnoc⟩
      · exact .inl rfl
      · rw [List.concat_eq_append] at hsnoc
        subst hsnoc
        rw [List.length_cons, List.length_append, List.length_singleton] at hlen
        refine .inr ⟨inner, last, rfl, by omega, fun d hd => hchars d ?_, isAlnum_of_ne (hchars last ?_) ?_⟩
        · exact List.mem_cons_of_mem _ (List.mem_append_left _ hd)
        · exact List.mem_cons_of_mem _ (List.mem_append_right _ (List.mem_singleton_self _))
        · rw [← List.cons_append] at hid
          exact trimDashes_last hid

end Slugs

/-! ## Every run -/

namespace NewWorkload

section Runs

variable {js : Strings} {f : NewWorkload} {e : NewWorkloadEvent} {es : List NewWorkloadEvent} {s : String}

/-- A name of the shared rule that the type has room for is taken as it is. -/
theorem accepted_of_nameRe (hwt : f.type ∈ registrations) (hname : nameRe 61 f.name = true)
    (hlen : f.name.length ≤ f.type.nameMaxLen) : f.Accepted := by
  have hlookup : lookup f.type.id = some f.type.toWorkloadType := by
    have hall : ∀ wt ∈ registrations, lookup wt.id = some wt.toWorkloadType := by
      unfold registrations
      exact List.forall_mem_cons.2 ⟨rfl, List.forall_mem_cons.2 ⟨rfl, List.forall_mem_singleton.2 rfl⟩⟩
    exact hall _ hwt
  have htrim : Go.trimSpace f.name = f.name := Go.trimSpace_eq_self fun c hc => (nameRe_harmless hname c hc).2.2.1
  unfold Accepted
  rw [hlookup, htrim, Option.map_some, (validateName_length hwt).2 ⟨hname, hlen⟩]

/-- An ID that is derived is in its field, and unless it is empty the server takes it. -/
structure Derived (f : NewWorkload) : Prop where
  type : f.type ∈ registrations
  auto : ∀ id, f.auto = some id → f.name = id ∧ (id ≠ "" → f.Accepted)

theorem derived_derive (hwt : f.type ∈ registrations) : (f.derive js s).Derived := by
  refine ⟨hwt, fun id hid => ?_⟩
  cases hid
  refine ⟨rfl, fun hne => ?_⟩
  obtain ⟨-, hmax, -⟩ := read_namePattern f.type hwt
  -- what `slugify` is asked for is what the type has room for
  obtain ⟨hname, hlen⟩ := (slugify_spec hmax).resolve_left hne
  exact accepted_of_nameRe hwt hname hlen

theorem derived_step (he : ∀ wt, e = .type wt → wt ∈ registrations) (h : f.Derived) : (f.step js e).Derived := by
  cases e with
  | displayName value =>
    unfold step
    dsimp only
    split
    · exact ⟨h.type, h.auto⟩
    · exact derived_derive h.type
  | name value => exact ⟨h.type, nofun⟩
  | type wt =>
    unfold step
    dsimp only
    split
    · exact derived_derive (he wt rfl)
    · rename_i hnot
      refine ⟨he wt rfl, fun id hid => ?_⟩
      -- it was empty before, and is left so
      obtain ⟨hname, -⟩ := h.auto id hid
      have hempty : f.name = "" := by
        by_contra hne
        exact hnot ⟨hne, hname ▸ hid⟩
      exact ⟨hname, fun hne => absurd (hname.symm.trans hempty) hne⟩

theorem derived_run (hes : ∀ wt, .type wt ∈ es → wt ∈ registrations) (h : f.Derived) :
    (f.run js es).Derived := by
  induction es generalizing f with
  | nil => exact h
  | cons e es ih =>
    refine ih (fun wt hmem => hes wt (List.mem_cons_of_mem _ hmem)) (derived_step (fun wt hwt => ?_) h)
    exact hes wt (hwt ▸ List.mem_cons_self ..)

/-- An ID typed by hand stays. -/
theorem typed_run (hes : ∀ s, .name s ∉ es) (hauto : f.auto = none) (hname : f.name ≠ "") :
    (f.run js es).name = f.name := by
  induction es generalizing f with
  | nil => rfl
  | cons e es ih =>
    have hstep : (f.step js e).name = f.name ∧ (f.step js e).auto = none := by
      cases e with
      | displayName value =>
        unfold step
        dsimp only
        rw [if_pos ⟨hname, by rw [hauto]; exact nofun⟩]
        exact ⟨rfl, hauto⟩
      | name value => exact absurd (List.mem_cons_self ..) (hes value)
      | type wt =>
        unfold step
        dsimp only
        rw [if_neg fun h => by rw [hauto] at h; exact nomatch h.2]
        exact ⟨rfl, hauto⟩
    exact (ih (fun s hmem => hes s (List.mem_cons_of_mem _ hmem)) hstep.2 (hstep.1 ▸ hname)).trans hstep.1

/-- However the user types in the fields and selects types, from the form as it is rendered and whatever the browser's
string functions do: an ID that was derived is in its field, and unless it is empty the server takes it for the type
selected; and an ID that was typed by hand stays until it is edited. -/
theorem derived_accepted {displayName name : String} {wt : Registration} (hwt : wt ∈ registrations)
    (hes : ∀ wt, .type wt ∈ es → wt ∈ registrations) (hf : (rendered displayName name wt).run js es = f) :
    (∀ id, f.auto = some id → f.name = id ∧ (id ≠ "" → f.Accepted)) ∧
    (f.auto = none → f.name ≠ "" → ∀ es', (∀ s, .name s ∉ es') → (f.run js es').name = f.name) := by
  have hrendered : (rendered displayName name wt).Derived := ⟨hwt, nofun⟩
  have hderived : f.Derived := hf ▸ derived_run hes hrendered
  exact ⟨hderived.auto, fun hauto hname es' hes' => typed_run hes' hauto hname⟩

/-- What the string functions do to ASCII. -/
def asciiStrings : Strings := ⟨fun s => s, fun s => String.ofList (s.toList.map Char.toLower)⟩

/-- A container is named, and made an OCI container. -/
def renamed : NewWorkload :=
  (rendered "" "" registrations[0]).run asciiStrings [.displayName "My Web & Application", .type registrations[1]]

theorem derived_accepted_renamed : renamed.name = "my-web-appl" ∧ renamed.Accepted := by
  have hmem : ∀ i (h : i < registrations.length), registrations[i] ∈ registrations := fun i h => List.getElem_mem h
  have hes : ∀ wt, .type wt ∈ [.displayName "My Web & Application", NewWorkloadEvent.type registrations[1]] →
      wt ∈ registrations := by
    intro wt h
    rcases List.mem_cons.1 h with h | h
    · cases h
    · cases List.mem_singleton.1 h
      exact hmem 1 (by decide)
  obtain ⟨hderived, -⟩ := derived_accepted (f := renamed) (hmem 0 (by decide)) hes rfl
  obtain ⟨hname, haccepted⟩ := hderived "my-web-appl" (by decide +kernel)
  exact ⟨hname, haccepted (by decide)⟩

end Runs

end NewWorkload

end Nixbox.Web
