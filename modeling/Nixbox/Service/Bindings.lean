/-
What the regenerated index.nix binds and opens: every enabled workload of a registered type, in
the section of its type, and the ports its latest revision asks for.
-/
import Nixbox.Service.System
import Nixbox.Service.Frames

namespace Nixbox

open Effect Prog Store Keyed Table Server Go
open Nix hiding FlakeInput

namespace Store.Db

variable {db : Db} {d : IndexDoc}

/-! ## What the rows ask for -/

/-- A line of index.nix for each enabled workload of a registered type. -/
def bindingOf (w : Workload) : Option PathBinding :=
  if w.enabled then (lookup w.type).map fun wt => ⟨wt.indexKey, nixAttrName w.name, workloadPath w.name⟩ else none

/-- A workload that is bound asks for the port: a token of its latest revision's string is the
number and the protocol. -/
def Asks (db : Db) (proto : Proto) (p : Nat) : Prop :=
  ∃ w ∈ db.workloads, (bindingOf w).isSome ∧ ∃ rev, db.latest w.id = some rev ∧
    ∃ tok ∈ fields rev.ports, ∃ n, tok = n ++ "/" ++ proto.name ∧
      parseInt n = some (p : Int) ∧ 1 ≤ p ∧ p ≤ 65535

/-- index.nix exposes the rows. -/
structure Exposes (db : Db) (d : IndexDoc) : Prop where
  sections : d.sections.map (·.1) = registeredTypes.map (·.indexKey)
  bindings : ∀ b, b ∈ d.bindings ↔ ∃ w ∈ db.workloads, bindingOf w = some b
  /-- A name is bound once in the whole file. -/
  once : (d.bindings.map (·.attr)).Nodup
  tcpIncreasing : d.tcp.Pairwise (· < ·)
  tcp : ∀ p, p ∈ d.tcp ↔ db.Asks .tcp p
  udpIncreasing : d.udp.Pairwise (· < ·)
  udp : ∀ p, p ∈ d.udp ↔ db.Asks .udp p

/-! ## What is regenerated -/

theorem bindingOf_eq_some {w : Workload} {b : PathBinding} : bindingOf w = some b ↔
    w.enabled = true ∧ ∃ wt, lookup w.type = some wt ∧
    b = ⟨wt.indexKey, nixAttrName w.name, workloadPath w.name⟩ := by
  unfold bindingOf
  split
  · rename_i hen
    rw [Option.map_eq_some_iff]
    exact ⟨fun ⟨wt, hwt, hb⟩ => ⟨hen, wt, hwt, hb.symm⟩, fun ⟨_, wt, hwt, hb⟩ => ⟨wt, hwt, hb.symm⟩⟩
  · rename_i hen
    exact ⟨nofun, fun h => absurd h.1 hen⟩

theorem bindingOf_isSome {w : Workload} : (bindingOf w).isSome ↔ w.enabled = true ∧ (lookup w.type).isSome := by
  unfold bindingOf
  split
  · rename_i hen
    simp [hen]
  · rename_i hen
    simp [hen]

theorem mem_indexEntries {e : IndexEntry} : e ∈ db.indexEntries ↔ ∃ w ∈ db.workloads, w.enabled = true ∧
    e = ⟨w.name, w.type, decodeHostPorts ((db.latest w.id).elim "" (·.ports))⟩ := by
  unfold indexEntries
  simp only [List.mem_map, List.mem_filter, mem_workloadList, eq_comm, and_assoc]

theorem mem_index_bindings {b : PathBinding} :
    b ∈ db.index.bindings ↔ ∃ w ∈ db.workloads, bindingOf w = some b := by
  unfold IndexDoc.bindings sectionBindings
  rw [List.mem_flatMap]
  constructor
  · rintro ⟨s, hs, hb⟩
    obtain ⟨wt, -, rfl⟩ := List.mem_map.1 hs
    obtain ⟨name, hname, rfl⟩ := List.mem_map.1 hb
    obtain ⟨e, he, rfl, wt', hlookup, hkey⟩ := mem_sectionNames.1 hname
    obtain ⟨w, hw, hen, rfl⟩ := mem_indexEntries.1 he
    exact ⟨w, hw, bindingOf_eq_some.2 ⟨hen, wt', hlookup, by rw [hkey]⟩⟩
  · rintro ⟨w, hw, hb⟩
    obtain ⟨hen, wt, hlookup, rfl⟩ := bindingOf_eq_some.1 hb
    refine ⟨_, List.mem_map.2 ⟨wt, (lookup_mem hlookup).1, rfl⟩, List.mem_map.2 ⟨w.name, ?_, rfl⟩⟩
    exact mem_sectionNames.2 ⟨_, mem_indexEntries.2 ⟨w, hw, hen, rfl⟩, rfl, wt, hlookup, rfl⟩

theorem mem_openPorts_indexEntries {proto : Proto} {p : Nat} :
    p ∈ openPorts db.indexEntries proto ↔ db.Asks proto p := by
  rw [mem_openPorts]
  unfold Asks
  simp only [bindingOf_isSome]
  constructor
  · rintro ⟨e, he, hty, hp⟩
    obtain ⟨w, hw, hen, rfl⟩ := mem_indexEntries.1 he
    refine ⟨w, hw, ⟨hen, hty⟩, ?_⟩
    rcases hrev : db.latest w.id with _ | rev
    · rw [hrev] at hp
      exact nomatch hp
    · rw [hrev] at hp
      exact ⟨rev, rfl, mem_decodeHostPorts.1 hp⟩
  · rintro ⟨w, hw, ⟨hen, hty⟩, rev, hrev, htok⟩
    refine ⟨_, mem_indexEntries.2 ⟨w, hw, hen, rfl⟩, hty, ?_⟩
    rw [hrev]
    exact mem_decodeHostPorts.2 htok

theorem index_bindings_once (hnames : UniqueBy Workload.name db.workloads) :
    (db.index.bindings.map (·.attr)).Nodup := by
  have hentries : (db.indexEntries.map (·.name)).Nodup := by
    have hrows : db.workloadList.Nodup :=
      (List.perm_insertionSort _ db.workloads.rows).nodup_iff.2 (List.Nodup.of_map _ db.workloads.nodup_ids)
    unfold indexEntries
    rw [List.map_map]
    refine (hrows.filter _).map_on fun w hw w' hw' hname => ?_
    exact hnames w (mem_workloadList.1 (List.mem_filter.1 hw).1) w' (mem_workloadList.1 (List.mem_filter.1 hw').1) hname
  have hattrs : db.index.bindings.map (·.attr) =
      (registeredTypes.flatMap fun wt => sectionNames db.indexEntries wt.indexKey).map nixAttrName := by
    unfold IndexDoc.bindings index indexDoc sectionBindings
    simp [List.flatMap_map, List.map_flatMap, Function.comp_def]
  have hkeys : (registeredTypes.map (·.indexKey)).Nodup := by decide
  rw [hattrs]
  refine List.Nodup.map nixAttrName_injective (List.nodup_flatMap.2 ⟨fun wt _ => ?_, ?_⟩)
  · unfold sectionNames sortStrings
    exact (List.perm_insertionSort _ _).nodup_iff.2 ((List.filter_sublist.map _).nodup hentries)
  · refine (List.pairwise_map.1 hkeys).imp fun {wt wt'} hne name hn hn' => ?_
    obtain ⟨e, he, rfl, t, ht, htk⟩ := mem_sectionNames.1 hn
    obtain ⟨e', he', hname, t', ht', htk'⟩ := mem_sectionNames.1 hn'
    have heq : e' = e := List.inj_on_of_nodup_map hentries he' he hname
    subst heq
    rw [ht] at ht'
    cases ht'
    exact hne (htk.symm.trans htk')

/-- The index of the rows exposes them. -/
theorem index_exposes (hnames : UniqueBy Workload.name db.workloads) : db.Exposes db.index where
  sections := by simp [index, indexDoc]
  bindings _ := mem_index_bindings
  once := index_bindings_once hnames
  tcpIncreasing := openPorts_increasing
  tcp _ := mem_openPorts_indexEntries
  udpIncreasing := openPorts_increasing
  udp _ := mem_openPorts_indexEntries

end Store.Db

namespace Server

variable {s : State}

theorem run_indexEntry {w : Workload} {rev : Revision} (h : s.db.latest w.id = some rev) :
    (indexEntry w).run.run s =
      (.ok ⟨w.name, w.type, decodeHostPorts ((s.db.latest w.id).elim "" (·.ports))⟩, s) := by
  have hquery : (latestRevision w.id).run.run s = (.ok rev, s) := by
    show (s.db.latestRevision w.id, s) = _
    rw [Db.latestRevision_ok.2 h]
  unfold indexEntry
  rw [run_exceptT_bind, hquery, h]
  rfl

theorem run_secrets : Store.secrets.run.run s = (.ok s.db.secretList, s) := by
  have hrows : (forEach loadMounts s.db.secretRows).run.run s = (.ok s.db.secretList, s) :=
    run_forEach fun _ _ => rfl
  unfold Store.secrets
  rw [run_exceptT_bind]
  exact hrows

/-- Regenerating succeeds unless a call fails or an enabled workload has no revision. -/
theorem run_regenerateIndex (h : ∀ w ∈ s.db.workloads, w.enabled = true → ∃ rev, s.db.latest w.id = some rev) :
    regenerateIndex.run.run s = (.ok (), s.reindexed) := by
  have hentries : (forEach indexEntry (s.db.workloadList.filter (·.enabled))).run.run s =
      (.ok s.db.indexEntries, s) := by
    refine run_forEach fun w hw => ?_
    obtain ⟨hmem, hen⟩ := List.mem_filter.1 hw
    obtain ⟨rev, hrev⟩ := h w (Db.mem_workloadList.1 hmem) hen
    exact run_indexEntry hrev
  have hworkloads : Store.workloads.run.run s = (.ok s.db.workloadList, s) := rfl
  unfold regenerateIndex
  rw [run_exceptT_bind, hworkloads]
  dsimp only
  rw [run_exceptT_bind, hentries]
  dsimp only
  have hsecrets : (indexSecrets s.db.workloadList).run.run s =
      (.ok (s.db.secretList.map (indexSecret s.db.workloadList)), s) := by
    unfold indexSecrets
    rw [run_exceptT_bind, run_secrets]
    rfl
  rw [run_exceptT_bind, hsecrets]
  rfl

/-- What `regenerateIndex` writes exposes the rows, whatever their port strings are; it writes it
unless a call fails or an enabled workload has no revision. -/
theorem regenerateIndex_exposes (hnames : UniqueBy Workload.name s.db.workloads) :
    (∀ faults, (regenerateIndex.run.runWith faults s).1 = .ok () →
      ∃ d, (regenerateIndex.run.runWith faults s).2.disk.indexNix = some d ∧ s.db.Exposes d) ∧
    ((∀ w ∈ s.db.workloads, w.enabled = true → ∃ rev, s.db.latest w.id = some rev) →
      (regenerateIndex.run.run s).1 = .ok ()) := by
  constructor
  · intro faults hok
    rcases (regenerateIndex_ends s).runWith faults with ⟨-, hs⟩ | ⟨⟨e, he⟩, -⟩
    · rw [hs]
      exact ⟨_, rfl, Db.index_exposes hnames⟩
    · rw [hok] at he
      exact nomatch he
  · intro h
    rw [run_regenerateIndex h]

/-- An enabled container that asks for two ports. -/
def webExposed : State := ((State.fresh exampleHost).run [createWeb,
  req (.workloadSave "web" "{ }" ["8080", "53"] ["", "udp"]), req (.workloadEnable "web")]).get (by decide +kernel)

theorem regenerateIndex_exposes_web : (webExposed.db.index.tcp = [8080] ∧ webExposed.db.index.udp = [53]) ∧
    (∀ faults, (regenerateIndex.run.runWith faults webExposed).1 = .ok () →
      ∃ d, (regenerateIndex.run.runWith faults webExposed).2.disk.indexNix = some d ∧ webExposed.db.Exposes d) ∧
    ((∀ w ∈ webExposed.db.workloads, w.enabled = true → ∃ rev, webExposed.db.latest w.id = some rev) →
      (regenerateIndex.run.run webExposed).1 = .ok ()) :=
  ⟨by decide +kernel, regenerateIndex_exposes (State.run_wf (Option.some_get _).symm).workloadNames⟩

end Server

end Nixbox
