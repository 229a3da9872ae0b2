/-
The resource usage of workloads: the one `systemctl show` of their units, and the map from names
that is read out of its answer.
-/
import Mathlib.Data.List.Perm.Basic
import Nixbox.Go.Split
import Nixbox.Lib.Directory
import Nixbox.Machine.Units

namespace Nixbox.Machine

open Directory Nix

/-- What systemd accounts for a unit, zero where it has nothing. -/
@[ext] structure Usage where
  running : Bool
  memBytes : Nat
  cpuNSec : Nat
  tasks : Nat
  deriving DecidableEq, Repr

/-- `Usage{}`. -/
def Usage.zero : Usage := ⟨false, 0, 0, 0⟩

/-- A counter; what is no number and the largest one stand for none. -/
def parseAccounting (v : String) : Nat :=
  match Go.parseUint v with
  | none => 0
  | some n => if n = 2 ^ 64 - 1 then 0 else n

/-- One property of a block, for the name and the usage read so far. -/
def setProperty (unitToName : Dir String) (acc : String × Usage) (kv : String × String) : String × Usage :=
  if kv.1 = "Id" then ((unitToName.get? kv.2).getD "", acc.2)
  else if kv.1 = "ActiveState" then (acc.1, { acc.2 with running := kv.2 == "active" })
  else if kv.1 = "MemoryCurrent" then (acc.1, { acc.2 with memBytes := parseAccounting kv.2 })
  else if kv.1 = "CPUUsageNSec" then (acc.1, { acc.2 with cpuNSec := parseAccounting kv.2 })
  else if kv.1 = "TasksCurrent" then (acc.1, { acc.2 with tasks := parseAccounting kv.2 })
  else acc

/-- A line of a block; one without `=` says nothing. -/
def readLine (unitToName : Dir String) (acc : String × Usage) (line : String) : String × Usage :=
  match Go.cut (Go.trimSpace line) '=' with
  | none => acc
  | some kv => setProperty unitToName acc kv

/-- The name and the usage that a block tells. -/
def readBlock (unitToName : Dir String) (block : String) : String × Usage :=
  (Go.split block "\n").foldl (readLine unitToName) ("", .zero)

/-- The usages by name; a block of a unit that was not asked for has no name. -/
def parseUsages (out : String) (unitToName : Dir String) : Dir Usage :=
  Dir.empty.putAll (((Go.split (Go.trimSpace out) "\n\n").map (readBlock unitToName)).filter fun e => e.1 ≠ "")

/-- The names the units are mapped back to. -/
def unitNames (refs : List Ref) : Dir String := Dir.empty.putAll (refs.map fun r => (r.unit, r.name))

/-- The command of `Usages`. -/
def showUnits (refs : List Ref) : List String :=
  ["systemctl", "show", "--property=Id,ActiveState,MemoryCurrent,CPUUsageNSec,TasksCurrent"] ++ refs.map Ref.unit

/-- `Usages`, with the runner that answers commands. -/
def usages (run : List String → Except String String) (refs : List Ref) : Except String (Dir Usage) :=
  if refs = [] then .ok .empty
  else (run (showUnits refs)).map fun out => parseUsages out (unitNames refs)

/-! ## What systemctl answers -/

/-- The value of a property on its line. -/
structure Plain (v : String) : Prop where
  line : '\n' ∉ v.toList
  last : ∀ c ∈ v.toList.getLast?, Go.isSpace c = false

/-- The state of a unit, as the texts of its properties. -/
structure UnitState where
  active : String
  memory : String
  cpu : String
  tasks : String
  plain : ∀ v ∈ [active, memory, cpu, tasks], Plain v

/-- The usage of a unit in a state. -/
def UnitState.usage (st : UnitState) : Usage :=
  ⟨st.active == "active", parseAccounting st.memory, parseAccounting st.cpu, parseAccounting st.tasks⟩

/-- What systemctl shows of a unit. -/
def UnitState.properties (st : UnitState) (unit : String) : List (String × String) :=
  [("Id", unit), ("ActiveState", st.active), ("MemoryCurrent", st.memory), ("CPUUsageNSec", st.cpu),
    ("TasksCurrent", st.tasks)]

/-- A property on its line. -/
def propertyLine (kv : String × String) : String := kv.1 ++ "=" ++ kv.2

/-- A block has the properties of its unit, a line each, in any order. -/
def IsBlock (state : String → UnitState) (unit block : String) : Prop :=
  ∃ kvs : List (String × String), kvs.Perm ((state unit).properties unit) ∧
    block = "\n".intercalate (kvs.map propertyLine)

/-- One block for each unit, in any order, and blank lines between them. -/
def Answers (state : String → UnitState) (units : List String) (out : String) : Prop :=
  ∃ us blocks, us.Perm units ∧ List.Forall₂ (IsBlock state) us blocks ∧ out = "\n\n".intercalate blocks ++ "\n"

/-- Whatever the state of the units, and in whatever order it is told, each workload gets that of its own unit. -/
def UsagesOwn (refs : List Ref) : Prop :=
  ∀ (state : String → UnitState) (run : List String → Except String String) (out : String),
  run (showUnits refs) = .ok out → Answers state (refs.map Ref.unit) out →
    ∃ m, usages run refs = .ok m ∧ ∀ r ∈ refs, m.get? r.name = some (state r.unit).usage

/-! ## Blocks -/

section Blocks

variable {state : String → UnitState} {unit out block : String} {kv kv' : String × String}
  {st : UnitState} {refs : List Ref}
  {unitToName : Dir String} {acc : String × Usage}

/-- The properties that are asked for. -/
def propertyNames : List String := ["Id", "ActiveState", "MemoryCurrent", "CPUUsageNSec", "TasksCurrent"]

theorem properties_spec (hunit : Plain unit) (h : kv ∈ st.properties unit) :
    kv.1 ∈ propertyNames ∧ Plain kv.2 := by
  have hplain := st.plain
  simp only [UnitState.properties, List.mem_cons, List.not_mem_nil, or_false] at h
  rcases h with rfl | rfl | rfl | rfl | rfl
  · exact ⟨by simp [propertyNames], hunit⟩
  all_goals exact ⟨by simp [propertyNames], hplain _ (by simp)⟩

/-- What is in the name of a property. -/
theorem propertyNames_spec {k : String} (h : k ∈ propertyNames) :
    '\n' ∉ k.toList ∧ '=' ∉ k.toList ∧ ∃ c cs, k.toList = c :: cs ∧ Go.isSpace c = false := by
  simp only [propertyNames, List.mem_cons, List.not_mem_nil, or_false] at h
  rcases h with rfl | rfl | rfl | rfl | rfl
  all_goals exact ⟨by decide, by decide, _, _, rfl, by decide⟩

theorem propertyLine_toList (kv : String × String) : (propertyLine kv).toList = kv.1.toList ++ '=' :: kv.2.toList := by
  simp [propertyLine]

theorem propertyLine_spec (hk : kv.1 ∈ propertyNames) (hv : Plain kv.2) :
    '\n' ∉ (propertyLine kv).toList ∧ Go.Trimmed (propertyLine kv) := by
  obtain ⟨hline, -, c, cs, hc, hspace⟩ := propertyNames_spec hk
  constructor
  · rw [propertyLine_toList, List.mem_append, List.mem_cons]
    simp [hline, hv.line]
  · constructor
    · exact ⟨c, cs ++ '=' :: kv.2.toList, by rw [propertyLine_toList, hc, List.cons_append], hspace⟩
    · rcases List.eq_nil_or_concat kv.2.toList with hnil | ⟨ds, d, hd⟩
      · exact ⟨kv.1.toList, '=', by rw [propertyLine_toList, hnil], by decide⟩
      · refine ⟨kv.1.toList ++ '=' :: ds, d, ?_, hv.last d ?_⟩
        · rw [propertyLine_toList, hd, List.concat_eq_append, List.append_assoc, List.cons_append]
        · simp [hd]

theorem readLine_property (hk : kv.1 ∈ propertyNames) (hv : Plain kv.2) :
    readLine unitToName acc (propertyLine kv) = setProperty unitToName acc kv := by
  have hcut : Go.cut (propertyLine kv) '=' = some kv := Go.cut_append (propertyNames_spec hk).2.1
  unfold readLine
  rw [(propertyLine_spec hk hv).2.trimSpace_eq, hcut]

/-- Each property sets one field. -/
theorem setProperty_fields (unitToName : Dir String) (acc : String × Usage) (kv : String × String) :
    (setProperty unitToName acc kv).1 = (if kv.1 = "Id" then (unitToName.get? kv.2).getD "" else acc.1) ∧
      (setProperty unitToName acc kv).2.running = (if kv.1 = "ActiveState" then kv.2 == "active" else acc.2.running) ∧
      (setProperty unitToName acc kv).2.memBytes =
        (if kv.1 = "MemoryCurrent" then parseAccounting kv.2 else acc.2.memBytes) ∧
      (setProperty unitToName acc kv).2.cpuNSec =
        (if kv.1 = "CPUUsageNSec" then parseAccounting kv.2 else acc.2.cpuNSec) ∧
      (setProperty unitToName acc kv).2.tasks = if kv.1 = "TasksCurrent" then
      parseAccounting kv.2 else acc.2.tasks := by
  obtain ⟨k, v⟩ := kv
  unfold setProperty
  dsimp only
  split_ifs <;> simp_all

theorem ite_swap {α : Type} {k k' key : String} {a b c : α} (h : k ≠ k') :
    (if k' = key then b else if k = key then a else c) = if k = key then a else if k' = key then b else c := by
  split_ifs with hk' hk
  · exact absurd (hk.trans hk'.symm) h
  all_goals rfl

/-- Different properties of a block may come in either order. -/
theorem setProperty_comm (h : kv.1 ≠ kv'.1) :
    setProperty unitToName (setProperty unitToName acc kv) kv' =
      setProperty unitToName (setProperty unitToName acc kv') kv := by
  obtain ⟨h1, h2, h3, h4, h5⟩ := setProperty_fields unitToName acc kv
  obtain ⟨h1', h2', h3', h4', h5'⟩ := setProperty_fields unitToName acc kv'
  obtain ⟨k1, k2, k3, k4, k5⟩ := setProperty_fields unitToName (setProperty unitToName acc kv) kv'
  obtain ⟨k1', k2', k3', k4', k5'⟩ := setProperty_fields unitToName (setProperty unitToName acc kv') kv
  refine Prod.ext ?_ (Usage.ext ?_ ?_ ?_ ?_)
  · rw [k1, k1', h1, h1', ite_swap h]
  · rw [k2, k2', h2, h2', ite_swap h]
  · rw [k3, k3', h3, h3', ite_swap h]
  · rw [k4, k4', h4, h4', ite_swap h]
  · rw [k5, k5', h5, h5', ite_swap h]

theorem properties_ne_nil {kvs : List (String × String)} (h : kvs.Perm (st.properties unit)) :
    kvs.map propertyLine ≠ [] := by
  rw [Ne, List.map_eq_nil_iff]
  rintro rfl
  exact absurd h.length_eq (by simp [UnitState.properties])

/-- A block is read as the name its unit is mapped to and the usage of the unit. -/
theorem readBlock_of_isBlock (hunit : Plain unit) (h : IsBlock state unit block) :
    readBlock unitToName block = ((unitToName.get? unit).getD "", (state unit).usage) := by
  obtain ⟨kvs, hperm, rfl⟩ := h
  have hspec : ∀ kv ∈ kvs, kv.1 ∈ propertyNames ∧ Plain kv.2 :=
    fun kv hkv => properties_spec hunit (hperm.mem_iff.1 hkv)
  have hsplit : Go.split ("\n".intercalate (kvs.map propertyLine)) "\n" = kvs.map propertyLine := by
    refine Go.split_intercalate (by decide) (properties_ne_nil hperm) fun l hl => ?_
    obtain ⟨kv, hkv, rfl⟩ := List.mem_map.1 hl
    exact Go.solid_newline (propertyLine_spec (hspec kv hkv).1 (hspec kv hkv).2).1
  have hlines : ∀ acc, (kvs.map propertyLine).foldl (readLine unitToName) acc =
      kvs.foldl (setProperty unitToName) acc := by
    intro acc
    rw [List.foldl_map]
    exact List.foldl_ext _ _ acc fun a kv hkv => readLine_property (hspec kv hkv).1 (hspec kv hkv).2
  have hcomm : ∀ kv ∈ kvs, ∀ kv' ∈ kvs, ∀ acc, setProperty unitToName (setProperty unitToName acc kv) kv' =
      setProperty unitToName (setProperty unitToName acc kv') kv := by
    intro kv hkv kv' hkv' acc
    by_cases hne : kv.1 = kv'.1
    · have hnodup : (((state unit).properties unit).map Prod.fst).Nodup := by simp [UnitState.properties]
      rw [List.inj_on_of_nodup_map hnodup (hperm.mem_iff.1 hkv) (hperm.mem_iff.1 hkv') hne]
    · exact setProperty_comm hne
  unfold readBlock
  rw [hsplit, hlines, hperm.foldl_eq' hcomm]
  rfl

theorem trimmed_block (hunit : Plain unit) (h : IsBlock state unit block) :
    Go.Trimmed block ∧ Go.Solid ['\n', '\n'] block.toList := by
  obtain ⟨kvs, hperm, rfl⟩ := h
  have hspec : ∀ l ∈ kvs.map propertyLine, '\n' ∉ l.toList ∧ Go.Trimmed l := by
    intro l hl
    obtain ⟨kv, hkv, rfl⟩ := List.mem_map.1 hl
    obtain ⟨hk, hv⟩ := properties_spec hunit (hperm.mem_iff.1 hkv)
    exact propertyLine_spec hk hv
  constructor
  · exact Go.trimmed_intercalate (properties_ne_nil hperm) fun l hl => (hspec l hl).2
  · refine Go.solid_block fun l hl => ⟨(hspec l hl).1, ?_⟩
    obtain ⟨c, cs, hc, -⟩ := (hspec l hl).2.first
    rw [hc]
    exact List.cons_ne_nil c cs

theorem readBlock_map {us blocks : List String} (hunits : ∀ u ∈ us, Plain u)
    (h : List.Forall₂ (IsBlock state) us blocks) :
    blocks.map (readBlock unitToName) = us.map (fun u => ((unitToName.get? u).getD "", (state u).usage)) ∧
      ∀ b ∈ blocks, Go.Trimmed b ∧ Go.Solid ['\n', '\n'] b.toList := by
  induction h with
  | nil => exact ⟨rfl, nofun⟩
  | cons hblock hblocks ih =>
    obtain ⟨hunit, hunits⟩ := List.forall_mem_cons.1 hunits
    obtain ⟨hmap, htrim⟩ := ih hunits
    exact ⟨by rw [List.map_cons, List.map_cons, readBlock_of_isBlock hunit hblock, hmap],
      List.forall_mem_cons.2 ⟨trimmed_block hunit hblock, htrim⟩⟩

/-- The answer is read block by block. -/
theorem parseUsages_of_answers {us blocks : List String} (hunits : ∀ u ∈ us, Plain u) (hne : us ≠ [])
    (h : List.Forall₂ (IsBlock state) us blocks) : parseUsages ("\n\n".intercalate blocks ++ "\n") unitToName =
      Dir.empty.putAll ((us.map fun u => ((unitToName.get? u).getD "", (state u).usage)).filter fun e =>
        e.1 ≠ "") := by
  obtain ⟨hmap, hblocks⟩ : blocks.map (readBlock unitToName) = _ ∧ _ := readBlock_map hunits h
  have hne' : blocks ≠ [] := by
    rintro rfl
    cases h
    exact hne rfl
  have htrim : Go.Trimmed ("\n\n".intercalate blocks) := Go.trimmed_intercalate hne' fun b hb => (hblocks b hb).1
  have hsplit : Go.split ("\n\n".intercalate blocks) "\n\n" = blocks :=
    Go.split_intercalate (by decide) hne' fun b hb => (hblocks b hb).2
  unfold parseUsages
  rw [Go.trimSpace_append htrim (by simp; decide), hsplit, hmap]

theorem plain_service {x : String} (h : '\n' ∉ x.toList) : Plain (x ++ ".service") where
  line := by simp [h]
  last c hc := by
    simp [List.getLast?_append] at hc
    subst hc
    decide

theorem plain_unit {r : Ref} (h : r.Accepted) : Plain r.unit := by
  have hchars : '\n' ∉ r.name.toList := fun hmem => absurd (h.chars _ hmem) (by decide)
  rcases h.cases with ht | ht | ht
  · rw [unit_container ht]
    exact plain_service (by simp [hchars])
  · rw [unit_oci ht]
    exact plain_service (by simp [hchars])
  · rw [unit_host ht]
    exact plain_service hchars

end Blocks

/-! ## The map of names -/

section Names

variable {refs : List Ref} {r : Ref} {u n : String}

theorem unitNames_get? (hunits : (refs.map Ref.unit).Nodup) (hr : r ∈ refs) :
    (unitNames refs).get? r.unit = some r.name := by
  refine Dir.get?_putAll_of_mem ?_ (List.mem_map_of_mem hr)
  rw [List.map_map]
  exact hunits

theorem exists_of_unitNames (h : (unitNames refs).get? u = some n) : ∃ r ∈ refs, r.unit = u ∧ r.name = n := by
  rcases Dir.get?_putAll h with hmem | hempty
  · obtain ⟨r, hr, heq⟩ := List.mem_map.1 hmem
    cases heq
    exact ⟨r, hr, rfl, rfl⟩
  · cases hempty

theorem usages_run {run : List String → Except String String} {out : String} (hrefs : refs ≠ [])
    (hrun : run (showUnits refs) = .ok out) : usages run refs = .ok (parseUsages out (unitNames refs)) := by
  unfold usages
  rw [if_neg hrefs, hrun]
  rfl

theorem plain_of_perm {us : List String} (haccepted : ∀ r ∈ refs, r.Accepted)
    (hperm : us.Perm (refs.map Ref.unit)) :
    ∀ u ∈ us, Plain u := by
  intro u hu
  obtain ⟨r, hr, rfl⟩ := List.mem_map.1 (hperm.mem_iff.1 hu)
  exact plain_unit (haccepted r hr)

theorem units_ne_nil {us : List String} (hrefs : refs ≠ []) (hperm : us.Perm (refs.map Ref.unit)) : us ≠ [] := by
  rintro rfl
  exact hrefs (List.map_eq_nil_iff.1 hperm.symm.eq_nil)

/-- No answer at all, as of a runner that runs nothing, says nothing of any unit. -/
theorem parseUsages_empty (unitToName : Dir String) : parseUsages "" unitToName = .empty := rfl

/-- While the units differ, each block goes to its workload. -/
theorem usagesOwn_of_nodup (haccepted : ∀ r ∈ refs, r.Accepted) (hnames : (refs.map (·.name)).Nodup)
    (hunits : (refs.map Ref.unit).Nodup) : UsagesOwn refs := by
  intro state run out hrun hanswers
  obtain ⟨us, blocks, hperm, hblocks, rfl⟩ := hanswers
  by_cases hrefs : refs = []
  · subst hrefs
    exact ⟨.empty, rfl, nofun⟩
  refine ⟨_, usages_run hrefs hrun, fun r hr => ?_⟩
  rw [parseUsages_of_answers (plain_of_perm haccepted hperm) (units_ne_nil hrefs hperm) hblocks]
  -- the entries are those of the list, in the order of the answer
  have hentries : ((us.map fun u => (((unitNames refs).get? u).getD "", (state u).usage)).filter
      fun e => e.1 ≠ "").Perm (refs.map fun r => (r.name, (state r.unit).usage)) := by
    refine ((hperm.map _).filter _).trans (.of_eq ?_)
    rw [List.map_map, List.filter_eq_self.2]
    · exact List.map_congr_left fun r hr => by rw [Function.comp_apply, unitNames_get? hunits hr]; rfl
    · intro e he
      obtain ⟨r, hr, rfl⟩ := List.mem_map.1 he
      simpa [unitNames_get? hunits hr] using (haccepted r hr).name_ne_empty
  refine Dir.get?_putAll_of_mem ?_ (hentries.mem_iff.2 (List.mem_map_of_mem hr))
  rw [(hentries.map Prod.fst).nodup_iff, List.map_map]
  exact hnames

/-- A unit that systemd has nothing on. -/
def downState : UnitState where
  active := "inactive"
  memory := "[not set]"
  cpu := "[not set]"
  tasks := "[not set]"
  plain v hv := by
    have hv' : v = "inactive" ∨ v = "[not set]" := by simpa using hv
    rcases hv' with rfl | rfl
    · exact ⟨by decide, by simp; decide⟩
    · exact ⟨by decide, by simp; decide⟩

/-- An answer in the order in which the units were asked for. -/
def answer (state : String → UnitState) (units : List String) : String :=
  "\n\n".intercalate (units.map fun u => "\n".intercalate (((state u).properties u).map propertyLine)) ++ "\n"

theorem answer_answers (state : String → UnitState) (units : List String) :
    Answers state units (answer state units) := by
  refine ⟨units, _, .refl _, ?_, rfl⟩
  rw [List.forall₂_map_right_iff]
  exact List.forall₂_same.2 fun u _ => ⟨_, .refl _, rfl⟩

/-- A unit is mapped back to one workload: where each gets a usage, no two share a unit. -/
theorem nodup_of_usagesOwn (haccepted : ∀ r ∈ refs, r.Accepted) (hnames : (refs.map (·.name)).Nodup)
    (hown : UsagesOwn refs) :
    (refs.map Ref.unit).Nodup := by
  have hmapped : ∀ r ∈ refs, (unitNames refs).get? r.unit = some r.name := by
    intro r hr
    have hrefs : refs ≠ [] := List.ne_nil_of_mem hr
    have hanswer := answer_answers (fun _ => downState) (refs.map Ref.unit)
    obtain ⟨m, hm, hget⟩ := hown _ (fun _ => .ok (answer (fun _ => downState) (refs.map Ref.unit))) _ rfl hanswer
    obtain ⟨us, blocks, hperm, hblocks, hout⟩ := hanswer
    rw [usages_run hrefs rfl, hout,
      parseUsages_of_answers (plain_of_perm haccepted hperm) (units_ne_nil hrefs hperm) hblocks] at hm
    cases hm
    rcases Dir.get?_putAll (hget r hr) with hmem | hempty
    · obtain ⟨u, hu, heq⟩ := List.mem_map.1 (List.mem_of_mem_filter hmem)
      have hname : ((unitNames refs).get? u).getD "" = r.name := congrArg Prod.fst heq
      cases hget : (unitNames refs).get? u with
      | none => exact absurd (by rw [← hname, hget]; rfl) (haccepted r hr).name_ne_empty
      | some n =>
        rw [hget] at hname
        obtain ⟨x, hx, rfl, hxn⟩ := exists_of_unitNames hget
        have hxr : x = r := List.inj_on_of_nodup_map hnames hx hr (hxn.trans hname)
        rw [← hxr, hget, hxn]
    · cases hempty
  refine (List.Nodup.of_map _ hnames).map_on fun a ha b hb hunit => ?_
  have hname : some a.name = some b.name := by rw [← hmapped a ha, ← hmapped b hb, hunit]
  exact List.inj_on_of_nodup_map hnames ha hb (Option.some.inj hname)

/-- The units of workloads with different names differ, each workload gets the usage of its own unit and no command on
one names the unit of another: each exactly if none is a host service named after the unit of an OCI container. -/
theorem units_own_iff (haccepted : ∀ r ∈ refs, r.Accepted) (hnames : (refs.map (·.name)).Nodup) :
    ((refs.map Ref.unit).Nodup ↔ Apart refs) ∧ (UsagesOwn refs ↔ Apart refs) ∧
    (StopsOwn refs ↔ Apart refs) := by
  have hunits := nodup_units_iff haccepted hnames
  refine ⟨hunits, ⟨fun hown => hunits.1 (nodup_of_usagesOwn haccepted hnames hown), fun hapart => ?_⟩,
    stopsOwn_iff haccepted⟩
  exact usagesOwn_of_nodup haccepted hnames (hunits.2 hapart)

/-- A container, a host service and an OCI container. -/
def threeRefs : List Ref := [⟨nixosContainer, "web"⟩, ⟨hostService, "podman-web"⟩, ⟨ociContainer, "db"⟩]

theorem threeRefs_accepted : ∀ r ∈ threeRefs, r.Accepted := by
  intro r hr
  simp only [threeRefs, List.mem_cons, List.not_mem_nil, or_false] at hr
  rcases hr with rfl | rfl | rfl
  all_goals exact ⟨by simp [registeredTypes], by decide⟩

theorem units_own_iff_three :
    ((threeRefs.map Ref.unit).Nodup ↔ Apart threeRefs) ∧ (UsagesOwn threeRefs ↔ Apart threeRefs) ∧
    (StopsOwn threeRefs ↔ Apart threeRefs) :=
  units_own_iff threeRefs_accepted (by decide)

/-- A host service takes the name of the unit of an OCI container. -/
def shadowingRefs : List Ref := [⟨ociContainer, "web"⟩, ⟨hostService, "podman-web"⟩]

theorem units_shared : ¬ ∀ refs : List Ref, (∀ r ∈ refs, r.Accepted) → (refs.map (·.name)).Nodup →
    (refs.map Ref.unit).Nodup ∧ UsagesOwn refs ∧ StopsOwn refs := by
  intro h
  have haccepted : ∀ r ∈ shadowingRefs, r.Accepted := by
    intro r hr
    simp only [shadowingRefs, List.mem_cons, List.not_mem_nil, or_false] at hr
    rcases hr with rfl | rfl
    all_goals exact ⟨by simp [registeredTypes], by decide⟩
  exact absurd (h shadowingRefs haccepted (by decide)).1 (by decide)

end Names

end Nixbox.Machine
