/-
The applied revisions right after a job that ran alone, against the index.nix its rebuild consumed:
the workloads it listed have their latest revision applied, the others what they had before.
-/
import Nixbox.Service.Applies

namespace Nixbox

open Effect Prog Store Server Keyed
open Nix hiding FlakeInput

/-! ## Definitions -/

/-- Past the refresh the rebuild has picked the state directory up. -/
def Running.consumes (j : Running) : Prop := j.succeeded ∨ j.phase = .switch → j.picked.isSome

/-- An apply job started in `s₀` that no request has interrupted. -/
structure Alone (s₀ : State) (mode : RebuildMode) (s : State) : Prop where
  rows : ∀ x ∈ s.db.workloads, ∃ w ∈ s₀.db.workloads, w.id = x.id ∧ w.name = x.name
  revisions : s.db.revisions = s₀.db.revisions
  index : s.disk.indexNix = some s₀.db.index
  job : ∃ j, s.job = some j ∧ j.fn = applyFn mode s₀ ∧ j.consumes ∧
    (∀ p, j.picked = some p → p.indexNix = some s₀.db.index) ∧
    ((∃ done, Progress mode s₀.db.revisionSnapshot j done ∧ Marked s₀.db done s.db) ∨
      (j.phase.stage = .over ∧ j.result = some ⟨0, true⟩))

/-! ## Every step of the job -/

section Steps

variable {i : Jobs.Input} {s₀ s s' : State} {j j' : Running} {mode : RebuildMode}

theorem consumes_step (hst : Jobs.Stepped i s j s' j') (h : j.consumes) : j'.consumes := by
  have hbad : ∀ {k : Running} {r : Rebuilt}, Jobs.Rebuilt.bad r → (Jobs.rebuildReturned k r).consumes := by
    intro k r hr hgood
    rcases hgood with hgood | hphase
    · exact absurd hgood (not_succeeded_of_bad hr Jobs.rebuildReturned_frame.2.2.2)
    · rw [(Jobs.rebuildReturned_bad hr).1] at hphase
      cases hphase
  -- a step that leaves the rebuild's result and does not reach the switch
  have hsame : j'.rebuilt = j.rebuilt → j'.picked = j.picked → j'.phase ≠ .switch → j'.consumes := by
    intro hr hp hne hgood
    rcases hgood with hgood | hphase
    · unfold Running.succeeded at hgood
      rw [hr] at hgood
      rw [hp]
      exact h (.inl hgood)
    · exact absurd hphase hne
  cases hst with
  | opened =>
    refine hsame rfl rfl ?_
    show Jobs.begin j.fn ≠ .switch
    cases j.fn <;> exact nofun
  | lockFailed _ hr | refreshFailed _ hr | switchFailed _ hr => exact hbad hr
  | refreshed => exact fun _ => rfl
  | switched hphase =>
    intro _
    rw [Jobs.rebuildReturned_frame.2.2.1]
    exact h (.inr hphase)
  | _ => exact hsame rfl rfl nofun

/-- A step of an apply job keeps ids and names, and the revisions. -/
theorem apply_step_rows {applied : List (ID × ID)} {inputs secrets : List ID} (hst : Jobs.Stepped i s j s' j')
    (hfn : j.fn = .apply mode applied inputs secrets) :
    (∀ x ∈ s'.db.workloads, ∃ w ∈ s.db.workloads, w.id = x.id ∧ w.name = x.name) ∧
      s'.db.revisions = s.db.revisions := by
  cases hst with
  | markedWorkload _ _ hdb =>
    refine ⟨fun x hx => ?_, ?_⟩
    · rcases (mem_markApplied hdb).1 hx with ⟨hx, -⟩ | ⟨w, hw, -, rfl⟩
      · exact ⟨x, hx, rfl, rfl⟩
      · exact ⟨w, hw, rfl, rfl⟩
    · obtain rfl := Db.markApplied_ok hdb
      rfl
  | deletedRow _ hfn' | removedDir _ hfn' => rw [hfn] at hfn'; cases hfn'
  | _ => exact ⟨fun x hx => ⟨x, hx, rfl, rfl⟩, rfl⟩

theorem Alone.step (hwf₀ : s₀.db.WF) (h : Alone s₀ mode s) (hs : s.step (.job i) = some s') :
    Alone s₀ mode s' := by
  obtain ⟨k, t, j', hk, hst, rfl⟩ := Jobs.step_some hs
  obtain ⟨j, hj, hfn, hcons, hpicked, hp⟩ := h.job
  rw [hj] at hk
  cases hk
  obtain ⟨hfn', -, -, hindex, -⟩ := hst.frame
  obtain ⟨hrows, hrevs⟩ := apply_step_rows hst hfn
  refine ⟨fun x hx => ?_, hrevs.trans h.revisions, hindex.trans h.index, j', rfl, hfn'.trans hfn,
    consumes_step hst hcons, fun p hp' => ?_, ?_⟩
  · obtain ⟨y, hy, hid, hname⟩ := hrows x hx
    obtain ⟨w, hw, hid', hname'⟩ := h.rows y hy
    exact ⟨w, hw, hid'.trans hid, hname'.trans hname⟩
  · rcases hst.picked with hsame | ⟨-, hnew⟩
    · exact hpicked p (hsame ▸ hp')
    · rw [hnew] at hp'
      cases hp'
      exact h.index
  · rcases hp with ⟨done, hp, hm⟩ | ⟨hover, hres⟩
    · -- the rows to mark name revisions that are still there
      have hrev : ∀ p ∈ s₀.db.revisionSnapshot, ∃ r ∈ s.db.revisions, r.id = p.2 := by
        rw [h.revisions]
        exact fun p hmem => (Grown.refl s₀.db).snapshot_revision hwf₀ hmem
      rcases progress_step hst hfn (nodup_revisionSnapshot _) hrev hp hm with hnext | ⟨-, hover, hres⟩
      · exact .inl hnext
      · exact .inr ⟨hover, hres⟩
    · -- the function has returned with an error; what is left keeps its result
      refine .inr ?_
      cases hst with
      | finished | notFinished | released => exact ⟨rfl, hres⟩
      | gaveUp hphase => rcases hphase with hphase | hphase | hphase <;> rw [hphase] at hover <;> cases hover
      | opened hphase | stopped hphase | locked hphase | lockFailed hphase | refreshed hphase
      | refreshFailed hphase | switched hphase | switchFailed hphase | markedWorkload hphase | markedInput hphase
      | markedSecret hphase | markedAll hphase | markFailed hphase | deletedRow hphase | removedDir hphase
      | removedData hphase => rw [hphase] at hover; cases hover

theorem Launched.alone {t : State} {row : ID} (h : Launched (applyFn mode s₀) row s₀.prepared t) :
    Alone s₀ mode t := by
  obtain ⟨jobs, hdb⟩ := h.db
  have hrows : t.db.workloads = s₀.db.workloads ∧ t.db.revisions = s₀.db.revisions := by
    rw [hdb]
    exact ⟨rfl, rfl⟩
  refine ⟨fun x hx => ⟨x, hrows.1 ▸ hx, rfl, rfl⟩, hrows.2, ?_, _, h.job, rfl, ?_,
    nofun, .inl ⟨[], ?_, ?_⟩⟩
  · rw [h.disk]
    rfl
  · rintro (⟨gen, hgood⟩ | hphase)
    · cases hgood
    · cases hphase
  · exact .starting rfl rfl
  · exact marked_nil.2 (grown_of_eq hrows.1 hrows.2).2

end Steps

/-! ## Right after the job -/

/-- Right after an apply job in switch mode that succeeded, with no request since it was started:
each workload the consumed index.nix lists has its latest revision applied and is shown so, and each
workload it does not list keeps the applied revision it had. -/
theorem applied_as_consumed {s₀ s : State} {r : Request} {mode : RebuildMode} {faults : List Bool} {page : String}
    {started : Job} {is : List Jobs.Input} {j : Running} (hs₀ : s₀.Reachable) (hmode : r.applyMode = some mode)
    (hstart : s₀.answer r faults = .jobLog page started)
    (hrun : (s₀.handle r faults).run (is.map .job) = some s) (hj : s.job = some j) (hend : j.phase = .exited)
    (hswitch : mode ≠ .build) (hok : j.result = some ⟨0, false⟩) :
    ∃ p, j.picked = some p ∧ ∀ x ∈ s.db.workloads,
      (p.lists x.name → ∃ latest, s.db.latest x.id = some latest ∧ x.appliedRevisionID = some latest.id ∧
        detailState x latest = .applied) ∧
      (¬ p.lists x.name → x.appliedRevisionID = (s₀.db.workloads.find? x.id).bind (·.appliedRevisionID)) := by
  have hwf₀ := hs₀.wf
  have hbegin : Alone s₀ mode (s₀.handle r faults) := by
    have hhandled := State.handle_ends (apply_ends hmode s₀) faults
    rw [hstart] at hhandled
    generalize s₀.handle r faults = t at hhandled ⊢
    generalize ha : Response.jobLog page started = a at hhandled
    cases hhandled with
    | rejected hp => subst ha; cases hp
    | launched hl => exact hl.alone
    | refused => cases ha
    | failed => cases ha
  have hjobs : Runs.Along State.step (fun _ e => ∃ i, e = .job i) (s₀.handle r faults) (is.map Event.job) := by
    refine Runs.along_iff.2 fun pre e post t hsplit _ => ?_
    obtain ⟨i, -, rfl⟩ := List.mem_map.1 (hsplit ▸ List.mem_append_right pre (List.mem_cons_self ..))
    exact ⟨i, rfl⟩
  have hfinal : Alone s₀ mode s := by
    refine Runs.exec_inv (I := Alone s₀ mode) (fun t e t' he hI hst => ?_) hjobs hbegin hrun
    obtain ⟨i, rfl⟩ := he
    exact hI.step hwf₀ hst
  obtain ⟨k, hk, -, hcons, hpicked, hp⟩ := hfinal.job
  rw [hj] at hk
  cases hk
  rcases hp with ⟨done, hp, hm⟩ | ⟨-, hres⟩
  case inr =>
    rw [hok] at hres
    cases hres
  obtain ⟨hgood, hperm⟩ : j.succeeded ∧ done.Perm s₀.db.revisionSnapshot := by
    cases hp with
    | applied _ _ hgood hperm => exact ⟨hgood, hperm⟩
    | notApplied _ hwhy =>
      rcases hwhy with h | h
      · exact absurd h hswitch
      · exact absurd hok h.2
    | starting h => rw [hend] at h; cases h
    | marking h => rw [hend] at h; cases h
  obtain ⟨p, hpick⟩ := Option.isSome_iff_exists.1 (hcons (.inl hgood))
  refine ⟨p, hpick, fun x hx => ?_⟩
  obtain ⟨w, hw, hid, hname⟩ := hfinal.rows x hx
  -- a name and an id are those of one workload of the start, and its type is registered
  have hlists : p.lists x.name ↔ w.enabled = true := by
    have hindex := hpicked p hpick
    constructor
    · intro hl
      obtain ⟨y, hy, hyname, hen, -⟩ := Db.index_lists.1 (lists_some hindex hl)
      rwa [hwf₀.workloadNames y hy w hw (hyname.trans hname.symm)] at hen
    · intro hen
      exact ⟨_, hindex, Db.index_lists.2 ⟨w, hw, hname, hen, hs₀.typed w hw⟩⟩
  have hlatest : s.db.latest x.id = s₀.db.latest w.id := by
    unfold Db.latest
    rw [Db.history_congr hfinal.revisions, hid]
  rw [hlists]
  constructor
  · intro hen
    obtain ⟨rev, hrev⟩ := hwf₀.latest_some hw
    have hmem : (x.id, rev.id) ∈ done :=
      hperm.mem_iff.2 ((mem_revisionSnapshot hwf₀).2 ⟨w, hw, hen, hid, rev, hid ▸ hrev, rfl⟩)
    have hmark := (hm x hx).1 rev.id hmem
    exact ⟨rev, hlatest.trans hrev, hmark, (detailState_applied rev hmark).2 rfl⟩
  · intro hdis
    refine (hm x hx).2 fun rid hmem => ?_
    obtain ⟨w', hw', hen', hid', -⟩ := (mem_revisionSnapshot hwf₀).1 (hperm.subset hmem)
    rw [Table.eq_of_rowid hw hw' (hid.trans hid'.symm)] at hdis
    exact hdis hen'

/-- A rebuild that nothing disturbed. -/
def rebuildAlone : State :=
  ((webEnabled.handle .rebuild []).run ((List.replicate 8 Jobs.Input.ok).map .job)).get (by decide +kernel)

theorem rebuildAlone_applied :
    ∃ p, rebuildAlone.job.bind (·.picked) = some p ∧ ∀ x ∈ rebuildAlone.db.workloads,
    p.lists x.name → ∃ latest, rebuildAlone.db.latest x.id = some latest ∧
    x.appliedRevisionID = some latest.id := by
  have hstart : webEnabled.answer .rebuild [] =
      .jobLog "system" ⟨1, .apply, .running, none, 2, none, none, "job-1.log", none⟩ := by decide +kernel
  have hjob : rebuildAlone.job = some (rebuildAlone.job.get (by decide +kernel)) := (Option.some_get _).symm
  obtain ⟨p, hp, hall⟩ := applied_as_consumed (State.reachable_run _) rfl hstart (Option.some_get _).symm hjob
    (by decide +kernel) nofun (by decide +kernel)
  refine ⟨p, by rw [hjob]; exact hp, fun x hx hl => ?_⟩
  obtain ⟨latest, hlatest, happ, -⟩ := (hall x hx).1 hl
  exact ⟨latest, hlatest, happ⟩

/-! ## Not as the running system -/

/-- The state directory the rebuild of the job in the slot picked up. -/
def State.consumed (s : State) : Option Disk := s.job.bind (·.picked)

/-- A job has just ended, at the last step of a run of requests each handled when no job was running:
its rebuild succeeded, on the state directory `p`. -/
def JustSwitched (s : State) (p : Disk) : Prop :=
  ∃ es i, Runs.Along State.step (fun s e => s.sequential e = true) (State.fresh exampleHost) (es ++ [.job i]) ∧
    (State.fresh exampleHost).run (es ++ [.job i]) = some s ∧ s.phase = some .exited ∧
    (∃ gen, s.job.bind (·.rebuilt) = some ⟨0, gen, false⟩) ∧ s.consumed = some p

/-- A workload applied, then disabled, then a rebuild without it. -/
def disabledAfterApply : List Event :=
  [createWeb, req (.workloadEnable "web"), req .rebuild] ++ jobSteps 8 ++
    [req (.workloadDisable "web"), req .rebuild] ++ jobSteps 6

/-- A workload enabled, and another one destroyed before any apply. -/
def destroyedBeforeApply : List Event :=
  [createWeb, req (.workloadEnable "web"), req (.workloadCreate ⟨"db", "", "nixos-container", "blank", false⟩),
    req (.workloadDestroy "db" "db" "")] ++ jobSteps 9

/-- A rebuild that succeeds, and whose first mark fails. -/
def markFails : List Event :=
  [createWeb, req (.workloadEnable "web"), req .rebuild] ++ jobSteps 4 ++
    [.job ⟨.ok 0, none, 0, true⟩] ++ jobSteps 1

/-- A workload has an applied revision, and index.nix does not list it. -/
def unlistedApplied : State :=
  ((State.fresh exampleHost).run (disabledAfterApply ++ [.job .ok])).get (by decide +kernel)

/-- A workload is listed, and has no applied revision. -/
def listedUnapplied : State :=
  ((State.fresh exampleHost).run (destroyedBeforeApply ++ [.job .ok])).get (by decide +kernel)

/-- A workload is listed whose mark has failed. -/
def listedUnmarked : State := ((State.fresh exampleHost).run (markFails ++ [.job .ok])).get (by decide +kernel)

/-- The workloads the index lists have their latest revision applied. -/
def ListedApplied (s : State) (p : Disk) : Prop := ∀ x ∈ s.db.workloads, p.lists x.name →
  ∃ latest, s.db.latest x.id = some latest ∧ x.appliedRevisionID = some latest.id

theorem ListedApplied.isSome {s : State} {p : Disk} (h : ListedApplied s p) :
    ∀ x ∈ s.db.workloads.rows, p.lists x.name → x.appliedRevisionID.isSome := by
  intro x hx hl
  obtain ⟨latest, -, happ⟩ := h x hx hl
  rw [happ]
  rfl

/-- After the first run the consumed index does not list a workload that has an applied revision;
after the second, a destroy, and the third, an apply, it lists one that has none. -/
theorem applied_not_as_consumed :
    (¬ ∀ (s : State) (p : Disk), JustSwitched s p → ∀ x ∈ s.db.workloads,
      ¬ p.lists x.name → x.appliedRevisionID = none) ∧
    (¬ ∀ (s : State) (p : Disk), JustSwitched s p →
      (∃ name id type data, s.job.map (·.fn) = some (.destroy name id type data)) → ListedApplied s p) ∧
    (¬ ∀ (s : State) (p : Disk), JustSwitched s p →
      (∃ mode ws inputs secrets, s.job.map (·.fn) = some (.apply mode ws inputs secrets)) →
      ListedApplied s p) := by
  refine ⟨?_, ?_, ?_⟩
  · intro hall
    have hjust : JustSwitched unlistedApplied (unlistedApplied.consumed.get (by decide +kernel)) :=
      ⟨disabledAfterApply, .ok, by decide +kernel, (Option.some_get _).symm, by decide +kernel,
        ⟨none, by decide +kernel⟩, (Option.some_get _).symm⟩
    have hnone : ∀ x ∈ unlistedApplied.db.workloads.rows, ¬ (unlistedApplied.consumed.get _).lists x.name →
        x.appliedRevisionID = none := hall _ _ hjust
    exact absurd hnone (by decide +kernel)
  · intro hall
    have hjust : JustSwitched listedUnapplied (listedUnapplied.consumed.get (by decide +kernel)) :=
      ⟨destroyedBeforeApply, .ok, by decide +kernel, (Option.some_get _).symm, by decide +kernel,
        ⟨none, by decide +kernel⟩, (Option.some_get _).symm⟩
    have hsome := (hall _ _ hjust ⟨"db", 2, "nixos-container", false, by decide +kernel⟩).isSome
    exact absurd hsome (by decide +kernel)
  · intro hall
    have hjust : JustSwitched listedUnmarked (listedUnmarked.consumed.get (by decide +kernel)) :=
      ⟨markFails, .ok, by decide +kernel, (Option.some_get _).symm, by decide +kernel, ⟨none, by decide +kernel⟩,
        (Option.some_get _).symm⟩
    have hsome := (hall _ _ hjust ⟨.switch, [(1, 1)], [], [], by decide +kernel⟩).isSome
    exact absurd hsome (by decide +kernel)

end Nixbox
