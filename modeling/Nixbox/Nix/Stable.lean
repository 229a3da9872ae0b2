/-
The generated files as their writers put them together, with maps gone through in any order and
sorts that need not be stable: what they write depends on what is declared, not on the order.
-/
import Mathlib.Data.String.Basic
import Nixbox.Lib.Sorted
import Nixbox.Nix.Flakes

namespace Nixbox.Nix

open Sorted

/-! ## The writers -/

/-- What a map holds for a key: the nil slice for one it does not have. -/
def mountsAt (s : IndexSecret) (key : String) : List String :=
  ((s.mounts.find? fun m => m.1 == key).map (·.2)).getD []

/-- The mounts of a secret, its map gone through in the order `range`. -/
def mountLines (s : IndexSecret) (range : List (String × List String)) : List (String × List String) :=
  (sortStrings ((range.filter fun m => !m.2.isEmpty).map (·.1))).map fun key => (key, sortStrings (mountsAt s key))

/-- `namesByKey` once the names of every key are sorted, the keys gone through in the order `range`. -/
def sortSections (namesByKey : String → List String) (range : List String) : String → List String :=
  range.foldl (fun names key k => if k = key then sortStrings (names k) else names k) namesByKey

/-- `WriteIndex` may write this text: there are orders of the maps and a sort of the secrets with which it does. -/
def WritesIndex (entries : List IndexEntry) (secrets : List IndexSecret) (text : String) : Prop :=
  ∃ (keys : List String) (sorted : List IndexSecret) (mounts : IndexSecret → List (String × List String)),
    keys.Perm (registeredTypes.map (·.indexKey)) ∧ SortsTo (·.name) secrets sorted ∧
    (∀ s ∈ secrets, (mounts s).Perm s.mounts) ∧
    text = IndexDoc.text
      { sections := registeredTypes.map fun wt => (wt.indexKey,
        sortSections (gather entries).namesByKey keys wt.indexKey)
        tcp := (gather entries).tcp.insertionSort fun a b => a ≤ b
        udp := (gather entries).udp.insertionSort fun a b => a ≤ b
        secrets := sorted.map fun s => { s with mounts := mountLines s (mounts s) } }

/-- The same entry with its ports in some order. -/
structure SameEntry (e e' : IndexEntry) : Prop where
  name : e'.name = e.name
  type : e'.type = e.type
  ports : e'.ports.Perm e.ports

/-- The same secret with the names of each key in some order; a key without names is as good as none. -/
structure SameSecret (s s' : IndexSecret) : Prop where
  name : s'.name = s.name
  owner : s'.owner = s.owner
  group : s'.group = s.group
  mode : s'.mode = s.mode
  mounts : ∀ key, (mountsAt s' key).Perm (mountsAt s key)

/-- `renderFlake` once the inputs are sorted. -/
def sortedFlakeDoc (sorted : List FlakeInput) (withAgenix : Bool) : FlakeDoc :=
  let userAgenix := sorted.any fun i => i.name == "agenix"
  let ownAgenix := withAgenix && !userAgenix
  { needNixpkgs := ownAgenix || sorted.any (·.followsNixpkgs)
    ownAgenix := ownAgenix
    inputs := sorted
    importsAgenix := withAgenix }

/-- `renderFlake` may give this text. -/
def RendersFlake (inputs : List FlakeInput) (withAgenix : Bool) (text : String) : Prop :=
  ∃ sorted, SortsTo (·.name) inputs sorted ∧ text = (sortedFlakeDoc sorted withAgenix).text

/-! ## One text -/

section OneText

variable {l l' : List String} {s s' : IndexSecret} {entries entries' : List IndexEntry}
  {secrets secrets' : List IndexSecret} {inputs inputs' : List FlakeInput} {withAgenix : Bool} {text : String}

theorem sortStrings_perm (h : l.Perm l') : sortStrings l = sortStrings l' :=
  @insertionSort_perm String String l l' _ (fun a => a) _ h fun _ _ _ _ heq => heq

theorem sortSections_of_not_mem {names : String → List String} {range : List String} {k : String} (h : k ∉ range) :
    sortSections names range k = names k := by
  unfold sortSections
  induction range generalizing names with
  | nil => rfl
  | cons key range ih =>
    rw [List.mem_cons, not_or] at h
    rw [List.foldl_cons, ih h.2, if_neg h.1]

/-- The names of a key are sorted once, when its turn comes. -/
theorem sortSections_of_mem {names : String → List String} {range : List String} {k : String} (hnd : range.Nodup)
    (h : k ∈ range) : sortSections names range k = sortStrings (names k) := by
  induction range generalizing names with
  | nil => cases h
  | cons key range ih =>
    obtain ⟨hnew, hnd⟩ := List.nodup_cons.1 hnd
    show sortSections _ range k = _
    rcases List.mem_cons.1 h with rfl | h
    · rw [sortSections_of_not_mem hnew]
      exact if_pos rfl
    · have hne : k ≠ key := fun heq => hnew (heq ▸ h)
      rw [ih hnd h]
      exact congrArg sortStrings (if_neg hne)

theorem mountsAt_of_mem (hkeys : (s.mounts.map (·.1)).Nodup) {m : String × List String} (hm : m ∈ s.mounts) :
    mountsAt s m.1 = m.2 := by
  have hfind : s.mounts.find? (fun x => x.1 == m.1) = some m := by
    cases hf : s.mounts.find? (fun x => x.1 == m.1) with
    | none => exact absurd (List.find?_eq_none.1 hf m hm) (by simp)
    | some x =>
      have hx : x.1 = m.1 := by simpa using List.find?_some hf
      rw [keys_of_nodup hkeys x (List.mem_of_find?_eq_some hf) m hm hx]
  unfold mountsAt
  rw [hfind]
  rfl

theorem mem_of_mountsAt {key : String} (h : mountsAt s key ≠ []) : (key, mountsAt s key) ∈ s.mounts := by
  unfold mountsAt at h ⊢
  cases hf : s.mounts.find? (fun m => m.1 == key) with
  | none =>
    rw [hf] at h
    exact absurd rfl h
  | some m =>
    have hm : m.1 = key := by simpa using List.find?_some hf
    subst hm
    exact List.mem_of_find?_eq_some hf

/-- The keys sorted and looked up, or the pairs sorted: the same lines. -/
theorem mountLines_eq {range : List (String × List String)} (hkeys : (s.mounts.map (·.1)).Nodup)
    (hrange : range.Perm s.mounts) : mountLines s range = (normalizeSecret s).mounts := by
  have hperm : ((range.filter fun m => !m.2.isEmpty).map (·.1)).Perm
      ((s.mounts.filter fun m => !m.2.isEmpty).map (·.1)) :=
    (hrange.filter _).map _
  have hsort : sortStrings ((s.mounts.filter fun m => !m.2.isEmpty).map (·.1)) =
      ((s.mounts.filter fun m => !m.2.isEmpty).insertionSort fun a b => a.1 ≤ b.1).map (·.1) :=
    (List.map_insertionSort _ _ (fun m : String × List String => m.1) _ fun _ _ _ _ => Iff.rfl).symm
  unfold mountLines
  rw [sortStrings_perm hperm, hsort, List.map_map]
  refine List.map_congr_left fun m hm => ?_
  rw [List.mem_insertionSort, List.mem_filter] at hm
  show (m.1, sortStrings (mountsAt s m.1)) = (m.1, sortStrings m.2)
  rw [mountsAt_of_mem hkeys hm.1]

/-- Whatever the orders, `WriteIndex` writes the document. -/
theorem writesIndex_iff (hnames : (secrets.map (·.name)).Nodup)
    (hkeys : ∀ s ∈ secrets, (s.mounts.map (·.1)).Nodup) :
    WritesIndex entries secrets text ↔ text = (indexDoc entries secrets).text := by
  have hnodup : (registeredTypes.map (·.indexKey)).Nodup := by decide
  have hdoc : ∀ (keys : List String) (mounts : IndexSecret → List (String × List String)),
      keys.Perm (registeredTypes.map (·.indexKey)) → (∀ s ∈ secrets, (mounts s).Perm s.mounts) →
      ({ sections := registeredTypes.map fun wt => (wt.indexKey,
        sortSections (gather entries).namesByKey keys wt.indexKey)
         tcp := (gather entries).tcp.insertionSort fun a b => a ≤ b
         udp := (gather entries).udp.insertionSort fun a b => a ≤ b
         secrets := (secrets.insertionSort fun a b => a.name ≤ b.name).map fun s =>
           { s with mounts := mountLines s (mounts s) } } : IndexDoc) = indexDoc entries secrets := by
    intro keys mounts hperm hmounts
    have hsections : ∀ wt ∈ registeredTypes, sortSections (gather entries).namesByKey keys wt.indexKey =
        sortStrings ((gather entries).namesByKey wt.indexKey) := fun wt hwt =>
      sortSections_of_mem (hperm.nodup_iff.2 hnodup) (hperm.mem_iff.2 (List.mem_map_of_mem hwt))
    have hsecrets : ∀ s ∈ secrets.insertionSort fun a b => a.name ≤ b.name,
        ({ s with mounts := mountLines s (mounts s) } : IndexSecret) = normalizeSecret s := by
      intro s hs
      rw [List.mem_insertionSort] at hs
      rw [mountLines_eq (hkeys s hs) (hmounts s hs)]
      rfl
    rw [indexDoc_eq_gather, List.map_congr_left hsecrets]
    congr 1
    exact List.map_congr_left fun wt hwt => by rw [hsections wt hwt]
  unfold WritesIndex
  simp only [sortsTo_iff (keys_of_nodup hnames)]
  constructor
  · rintro ⟨keys, _, mounts, hperm, rfl, hmounts, rfl⟩
    rw [hdoc keys mounts hperm hmounts]
  · rintro rfl
    exact ⟨_, _, fun s => s.mounts, .refl _, rfl, fun _ _ => .refl _, by rw [hdoc _ _ (.refl _) fun _ _ => .refl _]⟩

theorem rendersFlake_iff (hnames : (inputs.map (·.name)).Nodup) :
    RendersFlake inputs withAgenix text ↔ text = renderFlake inputs withAgenix := by
  unfold RendersFlake
  simp only [sortsTo_iff (keys_of_nodup hnames), exists_eq_left]
  rfl

/-! ## The order of what is declared -/

/-- The lines of the keys that have names. -/
theorem mem_mountLines (hkeys : (s.mounts.map (·.1)).Nodup) {line : String × List String} :
    line ∈ (s.mounts.filter fun m => !m.2.isEmpty).map (fun m => (m.1, sortStrings m.2)) ↔
      mountsAt s line.1 ≠ [] ∧ line.2 = sortStrings (mountsAt s line.1) := by
  simp only [List.mem_map, List.mem_filter, Bool.not_eq_true', List.isEmpty_eq_false_iff]
  constructor
  · rintro ⟨m, ⟨hm, hne⟩, rfl⟩
    dsimp only
    rw [mountsAt_of_mem hkeys hm]
    exact ⟨hne, rfl⟩
  · rintro ⟨hne, hline⟩
    exact ⟨_, ⟨mem_of_mountsAt hne, hne⟩, by rw [← hline]⟩

theorem normalizeSecret_eq (h : SameSecret s s') (hkeys : (s.mounts.map (·.1)).Nodup)
    (hkeys' : (s'.mounts.map (·.1)).Nodup) : normalizeSecret s' = normalizeSecret s := by
  have hnodup : ∀ x : IndexSecret, (x.mounts.map (·.1)).Nodup →
      (((x.mounts.filter fun m => !m.2.isEmpty).map fun m => (m.1, sortStrings m.2)).map (·.1)).Nodup := by
    intro x hx
    rw [List.map_map]
    exact hx.sublist (List.filter_sublist.map _)
  have hperm : ((s'.mounts.filter fun m => !m.2.isEmpty).map fun m => (m.1, sortStrings m.2)).Perm
      ((s.mounts.filter fun m => !m.2.isEmpty).map fun m => (m.1, sortStrings m.2)) := by
    refine (List.perm_ext_iff_of_nodup (hnodup s' hkeys').of_map (hnodup s hkeys).of_map).2 fun line => ?_
    have hlen := (h.mounts line.1).length_eq
    rw [mem_mountLines hkeys', mem_mountLines hkeys, sortStrings_perm (h.mounts line.1), ← List.length_pos_iff,
      ← List.length_pos_iff, hlen]
  have hlines : ∀ x : IndexSecret, (normalizeSecret x).mounts =
      ((x.mounts.filter fun m => !m.2.isEmpty).map fun m => (m.1, sortStrings m.2)).insertionSort
        fun a b => a.1 ≤ b.1 :=
    fun x => List.map_insertionSort _ _ _ _ fun _ _ _ _ => Iff.rfl
  have hmounts : (normalizeSecret s').mounts = (normalizeSecret s).mounts := by
    rw [hlines, hlines]
    exact insertionSort_perm hperm (keys_of_nodup (hnodup s' hkeys'))
  have hparts : ∀ x : IndexSecret, normalizeSecret x =
      ⟨x.name, x.owner, x.group, x.mode, (normalizeSecret x).mounts⟩ :=
    fun _ => rfl
  rw [hparts s', hparts s, hmounts, h.name, h.owner, h.group, h.mode]

theorem sectionNames_eq (h : Alike SameEntry entries entries') (key : String) :
    sectionNames entries' key = sectionNames entries key := by
  have hperm := h.map_perm (f := fun e => (e.type, e.name)) fun e _ e' _ hsame => by rw [hsame.type, hsame.name]
  have hnames : ∀ es : List IndexEntry,
      (((es.map fun e => (e.type, e.name)).filter fun x => (lookup x.1).any fun wt => wt.indexKey == key).map (·.2)) =
        (es.filter fun e => (lookup e.type).any fun wt => wt.indexKey == key).map (·.name) := by
    intro es
    rw [List.filter_map, List.map_map]
    rfl
  unfold sectionNames
  rw [← hnames, ← hnames]
  exact sortStrings_perm ((hperm.symm.filter _).map _)

theorem openPorts_eq (h : Alike SameEntry entries entries') (proto : Proto) :
    openPorts entries' proto = openPorts entries proto := by
  have hmem : ∀ n, n ∈ openPorts entries' proto ↔ n ∈ openPorts entries proto := by
    intro n
    rw [mem_openPorts, mem_openPorts]
    refine (h.exists_iff fun e e' hsame => ?_).symm
    rw [hsame.type, hsame.ports.mem_iff]
  have hincreasing : ∀ es, (openPorts es proto).Pairwise (· < ·) := fun _ => openPorts_increasing
  have hnodup : ∀ es, (openPorts es proto).Nodup := fun es => (hincreasing es).imp Nat.ne_of_lt
  exact ((List.perm_ext_iff_of_nodup (hnodup _) (hnodup _)).2 hmem).eq_of_pairwise
    (fun _ _ _ _ hlt hgt => absurd hlt (Nat.lt_asymm hgt)) (hincreasing _) (hincreasing _)

/-- Secrets in name order, whatever order they came in. -/
theorem sortedSecrets_eq (h : Alike SameSecret secrets secrets') (hnames : (secrets.map (·.name)).Nodup)
    (hkeys : ∀ s ∈ secrets, (s.mounts.map (·.1)).Nodup)
    (hkeys' : ∀ s ∈ secrets', (s.mounts.map (·.1)).Nodup) :
    (secrets'.insertionSort fun a b => a.name ≤ b.name).map normalizeSecret =
      (secrets.insertionSort fun a b => a.name ≤ b.name).map normalizeSecret := by
  have hsort : ∀ l : List IndexSecret, (l.insertionSort fun a b => a.name ≤ b.name).map normalizeSecret =
      (l.map normalizeSecret).insertionSort fun a b => a.name ≤ b.name :=
    fun l => List.map_insertionSort _ _ _ _ fun _ _ _ _ => Iff.rfl
  have hperm : (secrets.map normalizeSecret).Perm (secrets'.map normalizeSecret) :=
    h.map_perm fun s hs s' hs' hsame => (normalizeSecret_eq hsame (hkeys s hs) (hkeys' s' hs')).symm
  have hnodup : ((secrets.map normalizeSecret).map (·.name)).Nodup := by
    rw [List.map_map]
    exact hnames
  rw [hsort, hsort]
  exact (insertionSort_perm hperm (keys_of_nodup hnodup)).symm

theorem indexDoc_same (he : Alike SameEntry entries entries') (hs : Alike SameSecret secrets secrets')
    (hnames : (secrets.map (·.name)).Nodup) (hkeys : ∀ s ∈ secrets, (s.mounts.map (·.1)).Nodup)
    (hkeys' : ∀ s ∈ secrets', (s.mounts.map (·.1)).Nodup) :
    indexDoc entries' secrets' = indexDoc entries secrets := by
  unfold indexDoc
  rw [sortedSecrets_eq hs hnames hkeys hkeys', openPorts_eq he, openPorts_eq he]
  simp only [sectionNames_eq he]

theorem renderFlake_perm (h : inputs.Perm inputs') (hnames : (inputs.map (·.name)).Nodup) :
    renderFlake inputs' withAgenix = renderFlake inputs withAgenix := by
  unfold renderFlake flakeDoc
  rw [insertionSort_perm h (keys_of_nodup hnames)]

/-- For one set of declarations each file has one text, whatever order they come in, whatever order the maps
are gone through in, and however the sorts leave what they do not tell apart. -/
theorem writers_stable (he : Alike SameEntry entries entries') (hs : Alike SameSecret secrets secrets')
    (hi : inputs.Perm inputs') (hsecrets : (secrets.map (·.name)).Nodup) (hinputs : (inputs.map (·.name)).Nodup)
    (hkeys : ∀ s ∈ secrets, (s.mounts.map (·.1)).Nodup)
    (hkeys' : ∀ s ∈ secrets', (s.mounts.map (·.1)).Nodup) :
    (∃ text, ∀ t, (WritesIndex entries secrets t ↔ t = text) ∧
      (WritesIndex entries' secrets' t ↔ t = text)) ∧
      ∃ text, ∀ t, (RendersFlake inputs withAgenix t ↔ t = text) ∧
      (RendersFlake inputs' withAgenix t ↔ t = text) := by
  have hsecrets' : (secrets'.map (·.name)).Nodup :=
    (hs.map_perm (f := fun s => s.name) fun s _ s' _ hsame => hsame.name.symm).nodup_iff.1 hsecrets
  have hinputs' : (inputs'.map (·.name)).Nodup := (hi.map _).nodup_iff.1 hinputs
  refine ⟨⟨(indexDoc entries secrets).text, fun t => ⟨writesIndex_iff hsecrets hkeys, ?_⟩⟩,
    ⟨renderFlake inputs withAgenix, fun t => ⟨rendersFlake_iff hinputs, ?_⟩⟩⟩
  · rw [writesIndex_iff hsecrets' hkeys', indexDoc_same he hs hsecrets hkeys hkeys']
  · rw [rendersFlake_iff hinputs', renderFlake_perm hi hinputs]

/-- A container with two ports. -/
def webEntry : IndexEntry := ⟨"web", "nixos-container", [⟨8080, .tcp⟩, ⟨53, .udp⟩]⟩

/-- The same, with its ports the other way round. -/
def webEntrySwapped : IndexEntry := ⟨"web", "nixos-container", [⟨53, .udp⟩, ⟨8080, .tcp⟩]⟩

/-- An OCI container. -/
def dbEntry : IndexEntry := ⟨"db", "oci-container", []⟩

/-- A secret with two mounts under one key, and a key with none. -/
def tlsSecret : IndexSecret :=
  ⟨"tls", "root", "root", "0400", [("containers", ["web", "mail"]), ("ociContainers", [])]⟩

/-- The same with its mounts the other way round, and without the key that has none. -/
def tlsSecretSwapped : IndexSecret := ⟨"tls", "root", "root", "0400", [("containers", ["mail", "web"])]⟩

theorem sameSecret_tls : SameSecret tlsSecret tlsSecretSwapped := by
  refine ⟨rfl, rfl, rfl, rfl, fun key => ?_⟩
  by_cases hc : "containers" = key
  · subst hc
    decide
  · by_cases ho : "ociContainers" = key
    · subst ho
      decide
    · simp [mountsAt, tlsSecret, tlsSecretSwapped, hc, ho]

/-- Two entries and two inputs the other way round, ports and names of a mount list swapped, an empty list left
out. -/
theorem writers_stable_swapped :
    (∃ text, ∀ t, (WritesIndex [webEntry, dbEntry] [tlsSecret] t ↔ t = text) ∧
      (WritesIndex [dbEntry, webEntrySwapped] [tlsSecretSwapped] t ↔ t = text)) ∧
    ∃ text, ∀ t, (RendersFlake [⟨"b", "u", true⟩, ⟨"a", "v", false⟩] true t ↔ t = text) ∧
      (RendersFlake [⟨"a", "v", false⟩, ⟨"b", "u", true⟩] true t ↔ t = text) :=
  writers_stable
    ⟨[dbEntry, webEntry], .swap .., .cons ⟨rfl, rfl, .refl _⟩ (.cons ⟨rfl, rfl, .swap ..⟩ .nil)⟩
    ⟨[tlsSecret], .refl _, .cons sameSecret_tls .nil⟩ (.swap ..) (by decide) (by decide) (by decide) (by decide)

end OneText

end Nixbox.Nix
