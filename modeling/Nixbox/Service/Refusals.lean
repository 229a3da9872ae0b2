/-
What a request leaves behind that is refused because a job is running. The slot is asked for last:
an apply has regenerated both files and pruned the ciphertexts by then, a destroy has disabled the
workload and regenerated index.nix. The refusal is without effect exactly where these find
everything as they would write it.
-/
import Nixbox.Service.Frames

namespace Nixbox

open Effect Store Server Keyed
open Nix hiding FlakeInput

/-! ## Definitions -/

/-- The generated files are those of the rows, and no ciphertext is an orphan. -/
def State.regenerated (s : State) : Prop :=
  s.disk.indexNix = some s.db.index ∧ s.disk.flakeNix = some s.db.flake ∧
    ∀ e ∈ s.disk.secrets.entries, orphan s.keptSecrets e = false

/-- The workload is disabled, changed last at the present reading of the clock, and index.nix is
that of the rows. -/
def State.alreadyDisabled (s : State) (name : String) : Prop :=
  (∃ w ∈ s.db.workloads, w.name = name ∧ w.enabled = false ∧ w.updatedAt = s.host.clock s.ticks) ∧
    s.disk.indexNix = some s.db.index

/-- The request, once refused, will have had nothing to change. -/
def settled (s : State) : Request → Prop
  | .workloadDestroy name _ _ => s.alreadyDisabled name
  | _ => s.regenerated

/-! ## The two kinds of refusals -/

theorem State.prepared_disk_iff (s : State) : s.prepared.disk = s.disk ↔ s.regenerated := by
  unfold State.regenerated
  rw [Disk.ext_iff, ← pruned_eq_self]
  show some s.db.index = s.disk.indexNix ∧ some s.db.flake = s.disk.flakeNix ∧
    s.disk.workloads = s.disk.workloads ∧ pruned s.keptSecrets s.disk.secrets = s.disk.secrets ↔ _
  constructor
  · rintro ⟨hi, hf, -, hs⟩
    exact ⟨hi.symm, hf.symm, hs⟩
  · rintro ⟨hi, hf, hs⟩
    exact ⟨hi.symm, hf.symm, rfl, hs⟩

/-- Disabling changes no row exactly when the row reads so already. -/
theorem State.disabled_db_iff {s : State} {w : Workload} (hw : w ∈ s.db.workloads) :
    (s.disabled w.id).db = s.db ↔ w.enabled = false ∧ w.updatedAt = s.host.clock s.ticks := by
  have hfind : s.db.workloads.find? w.id = some w := Table.find?_mem hw
  constructor
  · intro h
    have hself : (s.disabled w.id).db.workloads.find? w.id =
        some { w with enabled := false, updatedAt := s.host.clock s.ticks } := by
      show (Table.modify s.db.workloads w.id
        (fun w => { w with enabled := false, updatedAt := s.host.clock s.ticks }) fun _ => rfl).find? w.id = _
      rw [Table.find?_modify_self, hfind]
      rfl
    rw [h, hfind] at hself
    have heq := Option.some.inj hself
    exact ⟨congrArg Workload.enabled heq, congrArg Workload.updatedAt heq⟩
  · rintro ⟨hen, hup⟩
    -- the one row written is written as it was
    have hrows : (s.disabled w.id).db.workloads = s.db.workloads := by
      refine Table.ext ?_
      show List.map _ s.db.workloads.rows = s.db.workloads.rows
      refine (List.map_congr_left fun x hx => ?_).trans (List.map_id _)
      split
      · rename_i hid
        have hxw : x = w := Table.eq_of_rowid hx hw hid
        rw [hxw, ← hup, ← hen]
        rfl
      · rfl
    show { s.db with workloads := (s.disabled w.id).db.workloads } = s.db
    rw [hrows]

theorem State.refused_destroy_iff {s : State} (hwf : s.db.WF) {w : Workload} (hw : w ∈ s.db.workloads) :
    (s.disabled w.id).reindexed.db = s.db ∧ (s.disabled w.id).reindexed.disk = s.disk ↔
    s.alreadyDisabled w.name := by
  show (s.disabled w.id).db = s.db ∧ { s.disk with indexNix := some (s.disabled w.id).db.index } = s.disk ↔ _
  have hdisk : ∀ d, { s.disk with indexNix := some d } = s.disk ↔ s.disk.indexNix = some d := by
    intro d
    constructor
    · intro h
      rw [← h]
    · intro h
      rw [← h]
  constructor
  · rintro ⟨hdb, hd⟩
    rw [hdisk, hdb] at hd
    obtain ⟨hen, hup⟩ := (s.disabled_db_iff hw).1 hdb
    exact ⟨⟨w, hw, rfl, hen, hup⟩, hd⟩
  · rintro ⟨⟨x, hx, hname, hen, hup⟩, hi⟩
    have hxw : x = w := hwf.workloadNames x hx w hw hname
    subst hxw
    have hdb := (s.disabled_db_iff hw).2 ⟨hen, hup⟩
    exact ⟨hdb, (hdisk _).2 (by rw [hdb]; exact hi)⟩

/-! ## Every refusal -/

/-- A request for a job that is answered with the busy conflict has changed no row and no file
exactly when there was nothing for it to change. -/
theorem refused_unchanged_iff {s : State} (hs : s.Reachable) {r : Request} {faults : List Bool}
    (hr : r.plain = false) (hbusy : s.answer r faults = .busy) :
    (s.handle r faults).db = s.db ∧ (s.handle r faults).disk = s.disk ↔ settled s r := by
  rcases r.plain_or with hplain | ⟨mode, hmode⟩ | ⟨name, confirm, deleteData, rfl⟩
  · rw [hr] at hplain
    cases hplain
  · have hend := State.handle_ends (apply_ends hmode s) faults
    rw [hbusy] at hend
    -- an apply request: what it prepares is the regenerated state
    have hset : settled s r = s.regenerated := by
      cases r with
      | workloadDestroy => cases hmode
      | _ => rfl
    rw [hset, ← s.prepared_disk_iff]
    generalize s.handle r faults = s' at hend ⊢
    generalize ha : Response.busy = a at hend
    cases hend with
    | rejected hp => subst ha; cases hp
    | launched => cases ha
    | failed => cases ha
    | refused => exact ⟨fun h => h.2, fun h => ⟨rfl, h⟩⟩
  · have hend := State.handle_ends (destroy_ends name confirm deleteData s) faults
    rw [hbusy] at hend
    generalize s.handle _ faults = s' at hend ⊢
    generalize ha : Response.busy = a at hend
    cases hend with
    | rejected hp => subst ha; cases hp
    | disabled => cases ha
    | launched => cases ha
    | failed => cases ha
    | refused hw hname =>
      rw [State.refused_destroy_iff hs.wf hw, hname]
      rfl

/-- A rebuild in flight, and a workload enabled since it started. -/
def enabledDuringRebuild : List Event := [createWeb, req .rebuild, req (.workloadEnable "web")]

/-- A second rebuild is refused there, and index.nix has changed to list the workload. -/
theorem refused_rebuild_reindexes : ¬ ∀ (s : State) (r : Request), s.Reachable → s.inFlight = true →
    s.answer r [] = .busy → (s.handle r []).db = s.db ∧ (s.handle r []).disk = s.disk := by
  intro hall
  have hsame := hall (((State.fresh exampleHost).run enabledDuringRebuild).get (by decide +kernel)) .rebuild
    (State.reachable_run _) (by decide +kernel) (by decide +kernel)
  exact absurd hsame.2 (by decide +kernel)

/-- A rebuild has just started. -/
def rebuildStarted : State := ((State.fresh exampleHost).run [createWeb, req .rebuild]).get (by decide +kernel)

theorem refused_rebuild_unchanged : (rebuildStarted.handle .rebuild []).db = rebuildStarted.db ∧
    (rebuildStarted.handle .rebuild []).disk = rebuildStarted.disk := by
  refine (refused_unchanged_iff (State.reachable_run _) (by decide) (by decide +kernel)).2 ⟨?_, ?_, ?_⟩
  · decide +kernel
  · decide +kernel
  · decide +kernel

end Nixbox
