/-
What an apply job leaves of the workloads: the snapshot it was started with, marked as a whole once
the rebuild has succeeded, over whatever the requests made of the rows in the meantime.
-/
import Nixbox.Service.Histories
import Mathlib.Data.List.Perm.Basic

namespace Nixbox

open Effect Prog Store Server Keyed Directory
open Nix hiding FlakeInput

/-! ## Definitions -/

/-- `Pipeline.Rebuild` returned code 0 and no error. -/
def Running.succeeded (j : Running) : Prop := ∃ gen, j.rebuilt = some ⟨0, gen, false⟩

/-- The workloads of `done` have the revisions of `done` applied, the others what they had in `db₀`. -/
def Marked (db₀ : Db) (done : List (ID × ID)) (db : Db) : Prop :=
  ∀ x ∈ db.workloads, (∀ rid, (x.id, rid) ∈ done → x.appliedRevisionID = some rid) ∧
    ((∀ rid, (x.id, rid) ∉ done) → x.appliedRevisionID = (db₀.workloads.find? x.id).bind (·.appliedRevisionID))

/-- Before the rebuild has returned, while the snapshot is marked, after the job function has
returned; and what only destroy jobs do. -/
inductive Stage
  | starting
  | marking
  | over
  | destroying
  deriving DecidableEq, Repr

/-- The stage of a phase. -/
def Phase.stage : Phase → Stage
  | .logFile | .lock | .refresh | .switch => .starting
  | .mark .. => .marking
  | .finish | .release | .exited => .over
  | .stop | .deleteRow | .removeDir | .removeData => .destroying

/-- How far an apply job has marked its snapshot. -/
inductive Progress (mode : RebuildMode) (applied : List (ID × ID)) (j : Running) : List (ID × ID) → Prop
  | starting (h : j.phase.stage = .starting) (hnone : j.rebuilt = none) : Progress mode applied j []
  | marking {ws inputs secrets done} (h : j.phase = .mark ws inputs secrets) (hmode : mode ≠ .build)
    (hgood : j.succeeded) (hperm : (done ++ ws).Perm applied) : Progress mode applied j done
  | applied {done} (h : j.phase.stage = .over) (hmode : mode ≠ .build) (hgood : j.succeeded)
    (hperm : done.Perm applied) : Progress mode applied j done
  | notApplied (h : j.phase.stage = .over)
    (hwhy : mode = .build ∨ ¬ j.succeeded ∧ j.result ≠ some ⟨0, false⟩) : Progress mode applied j []

/-! ## The snapshot -/

section Snapshot

variable {db : Db} {wid rid : ID}

theorem mem_revisionSnapshot (hwf : db.WF) : (wid, rid) ∈ db.revisionSnapshot ↔
    ∃ w ∈ db.workloads, w.enabled = true ∧ w.id = wid ∧ ∃ rev, db.latest wid = some rev ∧ rev.id = rid := by
  unfold Db.revisionSnapshot
  rw [List.mem_map]
  constructor
  · rintro ⟨w, hw, heq⟩
    obtain ⟨hmem, hen⟩ := List.mem_filter.1 hw
    have hmem := Db.mem_workloadList.1 hmem
    obtain ⟨rev, hrev⟩ := hwf.latest_some hmem
    rw [hrev] at heq
    cases heq
    exact ⟨w, hmem, hen, rfl, rev, hrev, rfl⟩
  · rintro ⟨w, hw, hen, rfl, rev, hrev, rfl⟩
    exact ⟨w, List.mem_filter.2 ⟨Db.mem_workloadList.2 hw, hen⟩, by rw [hrev]; rfl⟩

/-- The snapshot has one entry for each workload. -/
theorem nodup_revisionSnapshot (db : Db) : (db.revisionSnapshot.map Prod.fst).Nodup := by
  have hrows : (db.workloadList.map rowid).Nodup :=
    ((List.perm_insertionSort _ db.workloads.rows).map rowid).nodup_iff.2 db.workloads.nodup_ids
  have hkeys : db.revisionSnapshot.map Prod.fst = (db.workloadList.filter (·.enabled)).map rowid := by
    unfold Db.revisionSnapshot
    rw [List.map_map]
    rfl
  rw [hkeys]
  exact hrows.sublist (List.filter_sublist.map _)

end Snapshot

/-! ## Marking -/

section Marking

variable {db₀ db db' : Db} {done : List (ID × ID)} {wid rid : ID}

theorem marked_nil : Marked db₀ [] db ↔ AppliedKept db₀ db :=
  ⟨fun h x hx => (h x hx).2 fun _ => List.not_mem_nil, fun h x hx => ⟨nofun, fun _ => h x hx⟩⟩

theorem Marked.congr (h : Marked db₀ done db) (hw : db'.workloads = db.workloads) : Marked db₀ done db' := by
  intro x hx
  rw [hw] at hx
  exact h x hx

/-- What a request does to the rows leaves the marks. -/
theorem Marked.kept (h : Marked db₀ done db) (hdone : ∀ p ∈ done, ∃ w ∈ db₀.workloads, w.id = p.1)
    (hg₀ : Grown db₀ db) (ha : AppliedKept db db') : Marked db₀ done db' := by
  intro x hx
  rw [ha x hx]
  cases hfind : db.workloads.find? x.id with
  | some y =>
    obtain ⟨hy, hid⟩ := Table.find?_eq_some.1 hfind
    have hyx : y.id = x.id := hid
    have hmy := h y hy
    rw [hyx] at hmy
    exact hmy
  | none =>
    -- a new workload: neither in the snapshot nor in `db₀`
    have hnew : ∀ w ∈ db₀.workloads, w.id ≠ x.id := by
      intro w hw hid
      obtain ⟨y, hy, hyid, -⟩ := hg₀.kept w hw
      exact Table.find?_eq_none.1 hfind y hy (hyid.trans hid)
    refine ⟨fun r hr => ?_, fun _ => ?_⟩
    · obtain ⟨w, hw, hid⟩ := hdone _ hr
      exact absurd hid (hnew w hw)
    · rw [Table.find?_eq_none.2 hnew]

theorem markApplied_grown (h : db.markApplied wid rid = .ok db') : Grown db db' := by
  refine ⟨fun w hw => ?_, fun w _ => ?_⟩
  · by_cases hid : w.id = wid
    · exact ⟨_, (mem_markApplied h).2 (.inr ⟨w, hw, hid, rfl⟩), rfl, rfl, rfl⟩
    · exact ⟨w, (mem_markApplied h).2 (.inl ⟨hw, hid⟩), rfl, rfl, rfl⟩
  · obtain rfl := Db.markApplied_ok h
    exact List.prefix_rfl

theorem Marked.mark (h : Marked db₀ done db) (hdb : db.markApplied wid rid = .ok db')
    (hnew : ∀ r, (wid, r) ∉ done) : Marked db₀ ((wid, rid) :: done) db' := by
  intro x hx
  rcases (mem_markApplied hdb).1 hx with ⟨hx, hne⟩ | ⟨w, -, rfl, rfl⟩
  · obtain ⟨hin, hout⟩ := h x hx
    refine ⟨fun r hr => ?_, fun hr => hout fun r hmem => hr r (List.mem_cons_of_mem _ hmem)⟩
    rcases List.mem_cons.1 hr with heq | hr
    · exact absurd (congrArg Prod.fst heq) hne
    · exact hin r hr
  · refine ⟨fun r hr => ?_, fun hr => absurd (List.mem_cons_self ..) (hr rid)⟩
    rcases List.mem_cons.1 hr with heq | hr
    · cases heq
      rfl
    · exact absurd hr (hnew r)

/-- Marking fails only for want of the revision. -/
theorem markApplied_ok (wid : ID) (h : ∃ r ∈ db.revisions, r.id = rid) :
    ∃ db', db.markApplied wid rid = .ok db' := by
  obtain ⟨r, hr, hid⟩ := h
  unfold Db.markApplied
  rw [show db.revisions.find? rid = some r from Table.find?_eq_some.2 ⟨hr, hid⟩]
  split
  · rename_i hnone
    cases hnone
  · exact ⟨_, rfl⟩

end Marking

/-! ## The steps of the job -/

section Steps

variable {i : Jobs.Input} {s s' : State} {j j' : Running} {mode : RebuildMode} {applied done : List (ID × ID)}
  {inputs secrets : List ID}

/-- A step of an apply job writes no file and no revision, and deletes no row. -/
theorem apply_step_frame (hst : Jobs.Stepped i s j s' j') (hfn : j.fn = .apply mode applied inputs secrets) :
    s'.disk = s.disk ∧ Grown s.db s'.db := by
  cases hst with
  | markedWorkload _ _ hdb => exact ⟨rfl, markApplied_grown hdb⟩
  | markedInput | markedSecret | finished =>
    refine ⟨rfl, And.left (grown_of_eq ?_ ?_)⟩
    · rfl
    · rfl
  | deletedRow _ hfn' | removedDir _ hfn' => rw [hfn] at hfn'; cases hfn'
  | _ => exact ⟨rfl, .refl _⟩

theorem not_succeeded_of_bad {r : Rebuilt} (hr : Jobs.Rebuilt.bad r) (h : j.rebuilt = some r) : ¬ j.succeeded := by
  rintro ⟨gen, hgood⟩
  rw [h] at hgood
  cases hgood
  rcases hr with hr | hr
  · cases hr
  · exact hr rfl

theorem Progress.of_starting (hp : Progress mode applied j done) (h : j.phase.stage = .starting) :
    done = [] ∧ j.rebuilt = none := by
  cases hp with
  | starting _ hnone => exact ⟨rfl, hnone⟩
  | marking h' => rw [h'] at h; cases h
  | applied h' => rw [h'] at h; cases h
  | notApplied h' => rw [h'] at h; cases h

theorem Progress.of_mark {ws : List (ID × ID)} {ins secs : List ID} (hp : Progress mode applied j done)
    (h : j.phase = .mark ws ins secs) : mode ≠ .build ∧ j.succeeded ∧ (done ++ ws).Perm applied := by
  cases hp with
  | marking h' hmode hgood hperm =>
    rw [h] at h'
    cases h'
    exact ⟨hmode, hgood, hperm⟩
  | starting h' => rw [h] at h'; cases h'
  | applied h' => rw [h] at h'; cases h'
  | notApplied h' => rw [h] at h'; cases h'

/-- Once over, a job only moves on. -/
theorem Progress.of_over (hp : Progress mode applied j done) (h : j.phase.stage = .over)
    (h' : j'.phase.stage = .over) (hr : j'.rebuilt = j.rebuilt) (hres : j'.result = j.result) :
    Progress mode applied j' done := by
  have hsame : j'.succeeded = j.succeeded := by
    unfold Running.succeeded
    rw [hr]
  cases hp with
  | applied _ hmode hgood hperm => exact .applied h' hmode (hsame ▸ hgood) hperm
  | notApplied _ hwhy => exact .notApplied h' (by rwa [hsame, hres])
  | starting hs => rw [hs] at h; cases h
  | marking hs => rw [hs] at h; cases h

theorem Progress.not_destroying (hp : Progress mode applied j done) : j.phase.stage ≠ .destroying := by
  cases hp with
  | starting h | applied h | notApplied h => rw [h]; exact nofun
  | marking h => rw [h]; exact nofun

/-- After a rebuild that ended badly nothing has been marked, and nothing will be. -/
theorem progress_bad {r : Rebuilt} (hr : Jobs.Rebuilt.bad r) (hp : Progress mode applied j done)
    (hphase : j.phase.stage = .starting) {k : Running} : Progress mode applied (Jobs.rebuildReturned k r) done := by
  obtain ⟨rfl, -⟩ := hp.of_starting hphase
  obtain ⟨hphase', hresult⟩ := Jobs.rebuildReturned_bad (j := k) hr
  refine .notApplied (by rw [hphase']; rfl) (.inr ⟨not_succeeded_of_bad hr Jobs.rebuildReturned_frame.2.2.2, ?_⟩)
  rw [hresult]
  intro hgood
  cases r
  cases hgood
  rcases hr with hr | hr
  · cases hr
  · exact hr rfl

/-- The entry marked next has not been marked, and what is left is less by it. -/
theorem perm_eraseIdx {ws : List (ID × ID)} {k : Nat} {e : ID × ID} (hperm : (done ++ ws).Perm applied)
    (hk : ws[k]? = some e) (hkeys : (applied.map Prod.fst).Nodup) :
    (e :: done ++ ws.eraseIdx k).Perm applied ∧ ∀ r, (e.1, r) ∉ done := by
  obtain ⟨hlt, hget⟩ := List.getElem?_eq_some_iff.1 hk
  have hws : (e :: ws.eraseIdx k).Perm ws := by
    rw [← hget]
    exact List.getElem_cons_eraseIdx_perm hlt
  have hnext : (e :: done ++ ws.eraseIdx k).Perm applied :=
    (List.perm_middle.symm.trans (hws.append_left done)).trans hperm
  refine ⟨hnext, fun r hr => ?_⟩
  have hnodup := (hnext.map Prod.fst).nodup_iff.2 hkeys
  rw [List.cons_append, List.map_cons, List.nodup_cons] at hnodup
  exact hnodup.1 (List.mem_map.2 ⟨(e.1, r), List.mem_append_left _ hr, rfl⟩)

/-- A step of an apply job goes on with its marks, unless marking one fails. -/
theorem progress_step {db₀ : Db} (hst : Jobs.Stepped i s j s' j') (hfn : j.fn = .apply mode applied inputs secrets)
    (hkeys : (applied.map Prod.fst).Nodup) (hrevs : ∀ p ∈ applied, ∃ r ∈ s.db.revisions, r.id = p.2)
    (hp : Progress mode applied j done) (hm : Marked db₀ done s.db) :
    (∃ done', Progress mode applied j' done' ∧ Marked db₀ done' s'.db) ∨
      (i.fault = true ∧ j'.phase.stage = .over ∧ j'.result = some ⟨0, true⟩) := by
  cases hst with
  | opened h =>
    obtain ⟨rfl, hnone⟩ := hp.of_starting (by rw [h]; rfl)
    refine .inl ⟨[], .starting ?_ hnone, hm⟩
    show (Jobs.begin j.fn).stage = .starting
    rw [hfn]
    rfl
  | locked h | refreshed h =>
    obtain ⟨rfl, hnone⟩ := hp.of_starting (by rw [h]; rfl)
    exact .inl ⟨[], .starting rfl hnone, hm⟩
  | lockFailed h hr | refreshFailed h hr | switchFailed h hr =>
    exact .inl ⟨done, progress_bad hr hp (by rw [h]; rfl), hm⟩
  | switched h =>
    obtain ⟨rfl, hnone⟩ := hp.of_starting (by rw [h]; rfl)
    refine .inl ⟨[], ?_, hm⟩
    have hgood : (Jobs.rebuildReturned j ⟨0, i.gen, false⟩).succeeded :=
      ⟨i.gen, Jobs.rebuildReturned_frame.2.2.2⟩
    by_cases hmode : mode = .build
    · refine .notApplied ?_ (.inl hmode)
      unfold Jobs.rebuildReturned
      dsimp only
      rw [hfn, hmode]
      rfl
    · have hphase : (Jobs.rebuildReturned j ⟨0, i.gen, false⟩).phase = .mark applied inputs secrets := by
        unfold Jobs.rebuildReturned
        dsimp only
        rw [hfn]
        exact congrArg Running.phase (if_pos (by simpa using hmode))
      exact .marking hphase hmode hgood (List.Perm.refl _)
  | @markedWorkload ws _ _ k wid rid db h hk hdb =>
    obtain ⟨hmode, hgood, hperm⟩ := hp.of_mark h
    obtain ⟨hnext, hnew⟩ := perm_eraseIdx hperm hk hkeys
    exact .inl ⟨(wid, rid) :: done, .marking rfl hmode hgood hnext, hm.mark hdb hnew⟩
  | markedInput h | markedSecret h =>
    obtain ⟨hmode, hgood, hperm⟩ := hp.of_mark h
    exact .inl ⟨done, .marking rfl hmode hgood hperm, hm.congr rfl⟩
  | markedAll h =>
    obtain ⟨hmode, hgood, hperm⟩ := hp.of_mark h
    exact .inl ⟨done, .applied rfl hmode hgood (by simpa using hperm), hm⟩
  | @markFailed ws _ _ h hwhy =>
    -- the revisions of the snapshot are still there, so a call failed
    rcases hwhy with hf | ⟨w, hw, e, herr⟩
    · exact .inr ⟨hf, rfl, rfl⟩
    · obtain ⟨-, -, hperm⟩ := hp.of_mark h
      obtain ⟨db, hdb⟩ := markApplied_ok w.1 (hrevs w (hperm.subset (List.mem_append_right _ hw)))
      rw [hdb] at herr
      cases herr
  | deletedRow _ hfn' | removedDir _ hfn' => rw [hfn] at hfn'; cases hfn'
  | stopped h | removedData h => exact absurd (by rw [h]; rfl) hp.not_destroying
  | gaveUp h =>
    rcases h with h | h | h
    · obtain ⟨rfl, hnone⟩ := hp.of_starting (by rw [h]; rfl)
      refine .inl ⟨[], .notApplied rfl (.inr ⟨?_, nofun⟩), hm⟩
      rintro ⟨gen, hgood⟩
      rw [show (Jobs.return_ j _ true).rebuilt = j.rebuilt from rfl, hnone] at hgood
      cases hgood
    · exact absurd (by rw [h]; rfl) hp.not_destroying
    · exact absurd (by rw [h]; rfl) hp.not_destroying
  | finished h => exact .inl ⟨done, hp.of_over (by rw [h]; rfl) rfl rfl rfl, hm.congr rfl⟩
  | notFinished h => exact .inl ⟨done, hp.of_over (by rw [h]; rfl) rfl rfl rfl, hm⟩
  | released h => exact .inl ⟨done, hp.of_over (by rw [h]; rfl) rfl rfl rfl, hm⟩

end Steps

/-! ## While the job is in flight -/

/-- No write of the event fails: a request's failing calls only read, a job's steps meet no failing
call. -/
def Event.writesSucceed (s : State) : Event → Bool
  | .request r faults => (serve r).failsOnly (fun _ op => op.reads) faults s
  | .job i => !i.fault
  | .restart => true

/-- The apply job started in `s₀` has the slot; workloads, histories and files have kept what they
had in `s₀`, but for the marks of the job. -/
structure Applying (s₀ : State) (mode : RebuildMode) (s : State) : Prop where
  wf : s.db.WF
  held : s.SlotHeld
  grown : Grown s₀.db s.db
  files : FilesKept s₀ s
  marks : ∃ j done, s.job = some j ∧ j.fn = applyFn mode s₀ ∧
    Progress mode s₀.db.revisionSnapshot j done ∧ Marked s₀.db done s.db

section Applying

variable {s₀ s s' : State} {mode : RebuildMode}

theorem Progress.mem {j : Running} {done : List (ID × ID)} {applied : List (ID × ID)}
    (hp : Progress mode applied j done) {p : ID × ID} (h : p ∈ done) : p ∈ applied := by
  cases hp with
  | starting => cases h
  | notApplied => cases h
  | marking _ _ _ hperm => exact hperm.subset (List.mem_append_left _ h)
  | applied _ _ _ hperm => exact hperm.subset h

/-- The revisions of the snapshot stay. -/
theorem Grown.snapshot_revision (hg : Grown s₀.db s.db) (hwf₀ : s₀.db.WF) {p : ID × ID}
    (hp : p ∈ s₀.db.revisionSnapshot) : ∃ r ∈ s.db.revisions, r.id = p.2 := by
  obtain ⟨w, hw, -, hid, rev, hrev, hrid⟩ := (mem_revisionSnapshot hwf₀).1 hp
  have hmem : rev ∈ s₀.db.history w.id := by
    rw [hid]
    exact List.mem_of_getLast? hrev
  exact ⟨rev, (Db.mem_history.1 ((hg.history w hw).subset hmem)).1, hrid⟩

theorem Launched.applying {t : State} {row : ID} (hwf : s₀.db.WF)
    (h : Launched (applyFn mode s₀) row s₀.prepared t) :
    Applying s₀ mode t := by
  obtain ⟨jobs, hdb⟩ := h.db
  have hrows : t.db.workloads = s₀.db.workloads ∧ t.db.revisions = s₀.db.revisions := by
    rw [hdb]
    exact ⟨rfl, rfl⟩
  obtain ⟨hg, ha⟩ := grown_of_eq hrows.1 hrows.2
  refine ⟨?_, fun _ => h.busy, hg, ?_, _, [], h.job, rfl, .starting rfl rfl, marked_nil.2 ha⟩
  · rw [hdb]
    exact { hwf with }
  · refine filesKept_of_eq ?_
    rw [h.disk]
    rfl

theorem Applying.request (hwf₀ : s₀.db.WF) (h : Applying s₀ mode s) (hfl : s.inFlight = true) {r : Request}
    {faults : List Bool} (hfs : Event.writesSucceed s (.request r faults) = true) :
    Applying s₀ mode (s.handle r faults) := by
  obtain ⟨hg, ha⟩ := s.handle_grown r faults
  have hfiles := State.handle_filesKept h.wf hfs
  obtain ⟨j, done, hj, hfn, hp, hm⟩ := h.marks
  have hstep : s.step (.request r faults) = some (s.handle r faults) := rfl
  refine ⟨State.handle_wf h.wf r faults, State.step_slotHeld h.held hstep, h.grown.trans hg,
    .trans h.grown hg h.files hfiles, j, done, ?_, hfn, hp, ?_⟩
  · cases s.handle_slot r faults with
    | kept hjob => rw [hjob, hj]
    | claimed hfree => exact absurd (h.held hfl) (by rw [hfree]; exact nofun)
  · refine hm.kept (fun p hp' => ?_) h.grown ha
    obtain ⟨w, hw, -, hid, -⟩ := (mem_revisionSnapshot hwf₀).1 (hp.mem hp')
    exact ⟨w, hw, hid⟩

theorem Applying.job (hwf₀ : s₀.db.WF) (h : Applying s₀ mode s) {i : Jobs.Input} (hfault : i.fault = false)
    (hs : s.step (.job i) = some s') : Applying s₀ mode s' := by
  have hwf' := State.step_wf h.wf hs
  have hheld := State.step_slotHeld h.held hs
  obtain ⟨k, t, j', hk, hst, rfl⟩ := Jobs.step_some hs
  obtain ⟨j, done, hj, hfn, hp, hm⟩ := h.marks
  rw [hj] at hk
  cases hk
  obtain ⟨hdisk, hg⟩ := apply_step_frame hst hfn
  have hnext := progress_step hst hfn (nodup_revisionSnapshot _)
    (fun p hmem => h.grown.snapshot_revision hwf₀ hmem) hp hm
  rcases hnext with ⟨done', hp', hm'⟩ | ⟨hfail, -⟩
  case inr =>
    rw [hfault] at hfail
    cases hfail
  refine ⟨hwf', hheld, h.grown.trans hg, .trans h.grown hg h.files (filesKept_of_eq ?_), j', done', rfl,
    hst.frame.1.trans hfn, hp', hm'⟩
  rw [hdisk]

/-- The job is done only with the run of its steps: a restart leaves no job. -/
theorem applying_run (hwf₀ : s₀.db.WF) {t : State} (ht : Applying s₀ mode t) {es : List Event} {s : State}
    (hes : Runs.Along State.step (fun s e => s.inFlight = true ∧ e.writesSucceed s = true) t es)
    (hs : t.run es = some s) : Applying s₀ mode s ∨ s.job = none := by
  refine Runs.exec_inv (I := fun s => Applying s₀ mode s ∨
    s.job = none) (fun s e s' hp hI hst => ?_) hes (.inl ht) hs
  obtain ⟨hfl, hfs⟩ := hp
  rcases hI with hI | hnone
  · cases e with
    | request r faults => cases hst; exact .inl (hI.request hwf₀ hfl hfs)
    | job i => exact .inl (hI.job hwf₀ (by simpa [Event.writesSucceed] using hfs) hst)
    | restart => cases hst; exact .inr s.restart_frame.2.1
  · rw [State.inFlight, hnone] at hfl
    cases hfl

end Applying

/-! ## When the rebuild does not succeed -/

section Unapplied

variable {i : Jobs.Input} {s s' : State} {j j' : Running}

/-- Once the rebuild has returned, an apply job only marks and finishes. -/
theorem returned_step (hst : Jobs.Stepped i s j s' j') (h : j.phase.stage = .marking ∨ j.phase.stage = .over) :
    j'.rebuilt = j.rebuilt ∧ (j'.phase.stage = .marking ∨ j'.phase.stage = .over) := by
  cases hst with
  | opened hp | stopped hp | locked hp | lockFailed hp | refreshed hp | refreshFailed hp | switched hp | switchFailed hp
  | deletedRow hp | removedDir hp | removedData hp => rw [hp] at h; rcases h with h | h <;> cases h
  | gaveUp hp => rcases hp with hp | hp | hp <;> rw [hp] at h <;> rcases h with h | h <;> cases h
  | markedWorkload | markedInput | markedSecret => exact ⟨rfl, .inl rfl⟩
  | markedAll | markFailed | finished | notFinished | released => exact ⟨rfl, .inr rfl⟩

/-- A step of an apply job that is not marking leaves the rows of workloads, inputs and secrets. -/
theorem apply_step_tables {mode : RebuildMode} {applied : List (ID × ID)} {inputs secrets : List ID}
    (hst : Jobs.Stepped i s j s' j') (hfn : j.fn = .apply mode applied inputs secrets)
    (h : j.phase.stage ≠ .marking) : s'.db.workloads = s.db.workloads ∧
      s'.db.flakeInputs = s.db.flakeInputs ∧ s'.db.secrets = s.db.secrets := by
  cases hst with
  | markedWorkload hp | markedInput hp | markedSecret hp => exact absurd (by rw [hp]; rfl) h
  | deletedRow _ hfn' | removedDir _ hfn' => rw [hfn] at hfn'; cases hfn'
  | _ => exact ⟨rfl, rfl, rfl⟩

/-- The rebuild of the job in the slot has succeeded, or there is no job. -/
def Returned (s : State) : Prop :=
  s.job = none ∨ s.SlotHeld ∧ ∃ j, s.job = some j ∧ j.succeeded ∧
    (j.phase.stage = .marking ∨ j.phase.stage = .over)

theorem returned_run {t s : State} {es : List Event} (ht : Returned t)
    (hes : Runs.Along State.step (fun s _ => s.inFlight = true) t es) (hs : t.run es = some s) : Returned s := by
  refine Runs.exec_inv (I := Returned) (fun s e s' hfl hI hst => ?_) hes ht hs
  rcases hI with hnone | ⟨hheld, j, hj, hgood, hstage⟩
  · rw [State.inFlight, hnone] at hfl
    cases hfl
  have hheld' := State.step_slotHeld hheld hst
  cases e with
  | restart => cases hst; exact .inl s.restart_frame.2.1
  | request r faults =>
    cases hst
    cases s.handle_slot r faults with
    | kept hjob => exact .inr ⟨hheld', j, hjob.trans hj, hgood, hstage⟩
    | claimed hfree => exact absurd (hheld hfl) (by rw [hfree]; exact Bool.false_ne_true)
  | job i =>
    obtain ⟨k, u, j', hk, hstep, rfl⟩ := Jobs.step_some hst
    rw [hj] at hk
    cases hk
    obtain ⟨hr, hstage'⟩ := returned_step hstep hstage
    refine .inr ⟨hheld', j', rfl, ?_, hstage'⟩
    unfold Running.succeeded
    rw [hr]
    exact hgood

end Unapplied

/-! ## The outcome -/

/-- The detail page still shows the snapshot exactly when the history has not gone on. -/
theorem latest_same_iff {a b : Db} (hg : Grown a b) {w : Workload} (hw : w ∈ a.workloads) {rev latest : Revision}
    (hrev : a.latest w.id = some rev) (hlatest : b.latest w.id = some latest) :
    rev.id = latest.id ↔ b.history w.id = a.history w.id := by
  obtain ⟨l, hl⟩ := hg.history w hw
  constructor
  · intro hid
    rcases List.eq_nil_or_concat l with rfl | ⟨l', x, rfl⟩
    · rw [← hl, List.append_nil]
    · -- the last revision came after the snapshot, so its id is larger
      have hx : x = latest := by
        unfold Db.latest at hlatest
        rw [← hl, List.concat_eq_append, ← List.append_assoc, List.getLast?_concat] at hlatest
        exact Option.some.inj hlatest
      have hsorted : (b.history w.id).Pairwise fun p q => p.id < q.id := b.revisions.sorted.filter _
      rw [← hl, List.concat_eq_append, ← List.append_assoc, List.pairwise_append] at hsorted
      have hlt := hsorted.2.2 rev (List.mem_append_left _ (List.mem_of_getLast? hrev)) x (List.mem_singleton.2 rfl)
      rw [hx] at hlt
      exact absurd hid (Int.ne_of_lt hlt)
  · intro heq
    unfold Db.latest at hrev hlatest
    rw [heq, hrev] at hlatest
    cases hlatest
    rfl

/-- The workload `w` of the start is marked with the latest revision it had then, a revision of its
own, and shown as applied exactly when no revision was saved since; its file is then the same. -/
structure AppliedAsSnapshot (s₀ s : State) (w : Workload) : Prop where
  exists_row : ∃ rev x latest, s₀.db.latest w.id = some rev ∧ x ∈ s.db.workloads ∧ x.id = w.id ∧
    x.appliedRevisionID = some rev.id ∧ rev ∈ s.db.revisions ∧ rev.workloadID = x.id ∧
    s.db.latest x.id = some latest ∧
    (detailState x latest = .applied ↔ s.db.history w.id = s₀.db.history w.id) ∧
    (detailState x latest = .applied → s.disk.workloads.get? w.name = s₀.disk.workloads.get? w.name)

/-- A step of the job leaves every workload, input and secret as it is. -/
def jobMarksNothing (s : State) : Event → Prop
  | .job i => ∀ s', s.step (.job i) = some s' → s'.db.workloads = s.db.workloads ∧
      s'.db.flakeInputs = s.db.flakeInputs ∧ s'.db.secrets = s.db.secrets
  | _ => True

theorem detailState_applied {x : Workload} {rev : Revision} (latest : Revision)
    (h : x.appliedRevisionID = some rev.id) :
    detailState x latest = .applied ↔ rev.id = latest.id := by
  unfold detailState
  rw [h]
  dsimp only
  by_cases hid : rev.id = latest.id
  · rw [if_neg (not_not_intro hid)]
    exact ⟨fun _ => hid, fun _ => rfl⟩
  · rw [if_pos hid]
    exact ⟨nofun, fun h => absurd h hid⟩

theorem applied_snapshot {s₀ s : State} {mode : RebuildMode} (hwf₀ : s₀.db.WF) (h : Applying s₀ mode s)
    {done : List (ID × ID)} (hm : Marked s₀.db done s.db) (hperm : done.Perm s₀.db.revisionSnapshot) {w : Workload}
    (hw : w ∈ s₀.db.workloads) (hen : w.enabled = true) : AppliedAsSnapshot s₀ s w := by
  obtain ⟨rev, hrev⟩ := hwf₀.latest_some hw
  obtain ⟨x, hx, hid, hname, -⟩ := h.grown.kept w hw
  obtain ⟨latest, hlatest⟩ := h.wf.latest_some hx
  have hmem : (x.id, rev.id) ∈ done := by
    rw [hid]
    exact hperm.mem_iff.2 ((mem_revisionSnapshot hwf₀).2 ⟨w, hw, hen, rfl, rev, hrev, rfl⟩)
  have hmark := (hm x hx).1 rev.id hmem
  have hown := Db.mem_history.1 ((h.grown.history w hw).subset (List.mem_of_getLast? hrev))
  have hshown := (detailState_applied latest hmark).trans
    (latest_same_iff h.grown hw hrev (hid ▸ hlatest))
  refine ⟨rev, x, latest, hrev, hx, hid, hmark, hown.1, hown.2.trans hid.symm, hlatest, hshown, fun hs => ?_⟩
  exact h.files w hw (hshown.1 hs)

/-- Every apply job, over every sequence of requests in its time. If the mode is not build and the
rebuild succeeds, exactly the workloads enabled at the start are marked, with the revisions of then;
else the job marks nothing. -/
theorem apply_outcome {s₀ s : State} {r : Request} {mode : RebuildMode} {faults : List Bool} {page : String}
    {started : Job} {es : List Event} {j : Running} (hs₀ : s₀.Reachable) (hmode : r.applyMode = some mode)
    (hstart : s₀.answer r faults = .jobLog page started)
    (hes : Runs.Along State.step (fun s e => s.inFlight = true ∧ e.writesSucceed s = true) (s₀.handle r faults) es)
    (hrun : (s₀.handle r faults).run es = some s) (hj : s.job = some j) (hend : j.phase = .exited) :
    (mode ≠ .build ∧ j.succeeded →
      (∀ w ∈ s₀.db.workloads, w.enabled = true → AppliedAsSnapshot s₀ s w) ∧
      ∀ x ∈ s.db.workloads, (∀ w ∈ s₀.db.workloads, w.id = x.id → w.enabled = false) →
        x.appliedRevisionID = (s₀.db.workloads.find? x.id).bind (·.appliedRevisionID)) ∧
    (mode = .build ∨ ¬ j.succeeded → Runs.Along State.step jobMarksNothing (s₀.handle r faults) es) := by
  have hwf₀ := hs₀.wf
  have hbegin : Applying s₀ mode (s₀.handle r faults) := by
    have hend := State.handle_ends (apply_ends hmode s₀) faults
    rw [hstart] at hend
    generalize s₀.handle r faults = t at hend ⊢
    generalize ha : Response.jobLog page started = a at hend
    cases hend with
    | rejected hp => subst ha; cases hp
    | launched hl => exact hl.applying hwf₀
    | refused => cases ha
    | failed => cases ha
  have hfinal : Applying s₀ mode s := by
    rcases applying_run hwf₀ hbegin hes hrun with h | hnone
    · exact h
    · rw [hj] at hnone
      cases hnone
  refine ⟨fun ⟨hmode', hgood⟩ => ?_, fun hwhy => ?_⟩
  · obtain ⟨k, done, hk, -, hp, hm⟩ := hfinal.marks
    rw [hj] at hk
    cases hk
    have hperm : done.Perm s₀.db.revisionSnapshot := by
      cases hp with
      | applied _ _ _ hperm => exact hperm
      | notApplied _ hwhy =>
        rcases hwhy with h | h
        · exact absurd h hmode'
        · exact absurd hgood h.1
      | starting h => rw [hend] at h; cases h
      | marking h => rw [hend] at h; cases h
    refine ⟨fun w hw hen => applied_snapshot hwf₀ hfinal hm hperm hw hen, fun x hx hout => ?_⟩
    refine (hm x hx).2 fun rid hmem => ?_
    obtain ⟨w, hw, hen, hid, -⟩ := (mem_revisionSnapshot hwf₀).1 (hperm.subset hmem)
    rw [hout w hw hid] at hen
    cases hen
  · refine Runs.along_iff.2 fun pre e post t hsplit hpre => ?_
    cases e with
    | request | restart => exact trivial
    | job i =>
      intro u hu
      subst hsplit
      rcases applying_run hwf₀ hbegin hes.prefix hpre with ht | hnone
      · obtain ⟨k, t', j', hk, hst, rfl⟩ := Jobs.step_some hu
        obtain ⟨k', done, hk', hfn, hp, -⟩ := ht.marks
        rw [hk] at hk'
        cases hk'
        show t'.db.workloads = t.db.workloads ∧ t'.db.flakeInputs = t.db.flakeInputs ∧ t'.db.secrets = t.db.secrets
        refine apply_step_tables hst hfn fun hstage => ?_
        -- marking, the rebuild has succeeded, and so it would have at the end
        have hgood : mode ≠ .build ∧ k.succeeded := by
          cases hp with
          | marking _ hmode' hgood => exact ⟨hmode', hgood⟩
          | starting h | applied h | notApplied h => rw [h] at hstage; cases hstage
        obtain ⟨v, hv, hpost⟩ := Runs.exec_append_some.1 hrun
        rw [show v = t from Option.some.inj (hv.symm.trans hpre)] at hpost
        have hafter := returned_run (.inr ⟨ht.held, k, hk, hgood.2, .inl hstage⟩)
          ((hes.suffix hpre).mono fun _ _ h => h.1) hpost
        rcases hafter with hnone | ⟨-, k', hk', hgood', -⟩
        · rw [hj] at hnone
          cases hnone
        · rw [hj] at hk'
          cases hk'
          rcases hwhy with h | h
          · exact hgood.1 h
          · exact h hgood'
      · obtain ⟨k, t', j', hk, -⟩ := Jobs.step_some hu
        rw [hnone] at hk
        cases hk

/-- An enabled workload, then a rebuild during which it is saved again. -/
def webEnabled : State :=
  ((State.fresh exampleHost).run [createWeb, req (.workloadEnable "web")]).get (by decide +kernel)

/-- Another revision is saved while the rebuild runs. -/
def savedDuringRebuild : List Event :=
  jobSteps 2 ++ [req (.workloadSave "web" "{ edited = true; }" [] [])] ++ jobSteps 6

/-- The rebuild is over, and marked. -/
def rebuildOver : State := ((webEnabled.handle .rebuild []).run savedDuringRebuild).get (by decide +kernel)

/-- The rebuild marks the first revision, and the page shows the second as pending. -/
theorem savedDuringRebuild_outcome :
    (∀ w ∈ webEnabled.db.workloads, w.enabled = true → AppliedAsSnapshot webEnabled rebuildOver w) ∧
      ∀ x ∈ rebuildOver.db.workloads, (∀ w ∈ webEnabled.db.workloads, w.id = x.id → w.enabled = false) →
        x.appliedRevisionID = (webEnabled.db.workloads.find? x.id).bind (·.appliedRevisionID) := by
  have hstart : webEnabled.answer .rebuild [] =
      .jobLog "system" ⟨1, .apply, .running, none, 2, none, none, "job-1.log", none⟩ := by decide +kernel
  have hjob : rebuildOver.job = some (rebuildOver.job.get (by decide +kernel)) := (Option.some_get _).symm
  exact (apply_outcome (State.reachable_run _) rfl hstart (by decide +kernel) (Option.some_get _).symm hjob
    (by decide +kernel)).1 ⟨nofun, none, by decide +kernel⟩

end Nixbox
