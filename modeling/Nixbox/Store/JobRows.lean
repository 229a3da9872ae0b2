/-
The jobs table under the statements that write it: which rows are running, and what deleting a
workload does to the rows of its jobs.
-/
import Nixbox.Store.Invariant

namespace Nixbox.Store

open Keyed Table

/-- The row of a job whose workload `id` is deleted. -/
def Job.detach (id : ID) (j : Job) : Job := if j.workloadID = some id then { j with workloadID := none } else j

/-- The row without its workload. -/
def Job.unbound (j : Job) : Job := { j with workloadID := none }

theorem Job.detach_id (id : ID) (j : Job) : rowid (j.detach id) = rowid j := by
  unfold Job.detach
  split <;> rfl

theorem Job.detach_status (id : ID) (j : Job) : (j.detach id).status = j.status := by
  unfold Job.detach
  split <;> rfl

theorem Job.detach_cases (id : ID) (j : Job) :
    j.detach id = j ∨ (j.detach id = j.unbound ∧ j.workloadID = some id) := by
  unfold Job.detach
  split
  · rename_i h; exact .inr ⟨rfl, h⟩
  · exact .inl rfl

namespace Db

variable {db db' : Db} {id : ID} {now : Time}

/-- The rows marked running, in id order. -/
def runningIDs (db : Db) : List ID := db.runningJobs.map (·.id)

theorem mem_runningJobs {j : Job} : j ∈ db.runningJobs ↔ j ∈ db.jobs ∧ j.status = .running := by
  unfold runningJobs
  rw [List.mem_filter, beq_iff_eq]
  rfl

theorem mem_runningIDs : id ∈ db.runningIDs ↔ ∃ j ∈ db.jobs, j.id = id ∧ j.status = .running := by
  unfold runningIDs
  rw [List.mem_map]
  constructor
  · rintro ⟨j, hj, rfl⟩
    obtain ⟨hj, hst⟩ := mem_runningJobs.1 hj
    exact ⟨j, hj, rfl, hst⟩
  · rintro ⟨j, hj, rfl, hst⟩
    exact ⟨j, mem_runningJobs.2 ⟨hj, hst⟩, rfl⟩

theorem length_runningIDs (db : Db) : db.runningIDs.length = db.runningJobs.length := List.length_map ..

theorem runningIDs_congr (h : db'.jobs = db.jobs) : db'.runningIDs = db.runningIDs := by
  unfold runningIDs runningJobs
  rw [h]

/-- Rewriting rows but not what is running of them. -/
theorem runningIDs_mapRows {f : Job → Job} (hf : ∀ j, rowid (f j) = rowid j)
    (hst : ∀ j, (f j).status = j.status) (h : db'.jobs = db.jobs.mapRows f hf) :
    db'.runningIDs = db.runningIDs := by
  unfold runningIDs runningJobs
  rw [h]
  show ((db.jobs.rows.map f).filter _).map _ = _
  rw [List.filter_map, List.map_map]
  have hfilter : db.jobs.rows.filter ((fun j => j.status == .running) ∘ f) =
      db.jobs.rows.filter fun j => j.status == .running :=
    List.filter_congr fun j _ => by rw [Function.comp_apply, hst]
  rw [hfilter]
  exact List.map_congr_left fun j _ => hf j

/-! ## Finished rows -/

/-- Every row of `db` that does not run is in `db'` as it was, or without its workload, which was
then among those deleted, the `D`. -/
def Kept (D : ID → Prop) (db db' : Db) : Prop :=
  ∀ j ∈ db.jobs, j.status ≠ .running → j ∈ db'.jobs ∨
    (j.unbound ∈ db'.jobs ∧ ∃ wid, j.workloadID = some wid ∧ D wid)

section Kept

variable {D D' : ID → Prop} {a b c : Db}

theorem kept_of_jobs (h : db'.jobs = db.jobs) : Kept D db db' := fun j hj _ => .inl (by rw [h]; exact hj)

theorem Kept.trans (h : Kept D a b) (h' : Kept D' b c) : Kept (fun wid => D wid ∨ D' wid) a c := by
  intro j hj hst
  rcases h j hj hst with hj' | ⟨hj', wid, hwid, hd⟩
  · rcases h' j hj' hst with hj'' | ⟨hj'', wid, hwid, hd⟩
    · exact .inl hj''
    · exact .inr ⟨hj'', wid, hwid, .inr hd⟩
  · -- a row without a workload cannot lose it again
    rcases h' _ hj' hst with hj'' | ⟨-, _, hnone, -⟩
    · exact .inr ⟨hj'', wid, hwid, .inl hd⟩
    · cases hnone

theorem Kept.mono (h : Kept D a b) (hD : ∀ wid, D wid → D' wid) : Kept D' a b := by
  intro j hj hst
  rcases h j hj hst with hj' | ⟨hj', wid, hwid, hd⟩
  · exact .inl hj'
  · exact .inr ⟨hj', wid, hwid, hD wid hd⟩

theorem kept_detach (hd : D id) (h : db'.jobs = db.jobs.mapRows (Job.detach id) (Job.detach_id id)) :
    Kept D db db' := by
  intro j hj _
  have hmem : j.detach id ∈ db'.jobs := h ▸ mem_mapRows.2 ⟨j, hj, rfl⟩
  rcases j.detach_cases id with heq | ⟨heq, hwid⟩
  · exact .inl (heq ▸ hmem)
  · exact .inr ⟨heq ▸ hmem, id, hwid, hd⟩

/-- Writing the row of a running job only. -/
theorem kept_of_others (hrun : id ∈ db.runningIDs) (h : ∀ j ∈ db.jobs, j.id ≠ id → j ∈ db'.jobs) :
    Kept D db db' := by
  intro j hj hst
  obtain ⟨x, hx, hxid, hxst⟩ := mem_runningIDs.1 hrun
  refine .inl (h j hj fun hid => hst ?_)
  rw [eq_of_rowid hj hx (hid.trans hxid.symm)]
  exact hxst

end Kept

/-! ## The statements of the manager -/

theorem createJob_runningIDs {kind : JobKind} {workloadID : Option ID} {log : String} {a : ID}
    (h : db.createJob kind workloadID log now = .ok (a, db')) : db'.runningIDs = db.runningIDs ++ [a] := by
  obtain ⟨-, rfl, rfl⟩ := createJob_ok h
  unfold runningIDs runningJobs
  show ((db.jobs.rows ++ [_]).filter _).map _ = _
  rw [List.filter_append, List.map_append]
  rfl

theorem mem_setJobLogPath {log : String} {j : Job} : j ∈ (db.setJobLogPath id log).jobs ↔
    (j ∈ db.jobs ∧ j.id ≠ id) ∨ ∃ x ∈ db.jobs, x.id = id ∧ { x with logPath := log } = j := by
  unfold setJobLogPath
  apply mem_modify
  exact fun _ => rfl

theorem mem_finishJob {status : JobStatus} {code : Int} {gen : Option Int} {j : Job} :
    j ∈ (db.finishJob id status code gen now).jobs ↔
      (j ∈ db.jobs ∧ j.id ≠ id) ∨ ∃ x ∈ db.jobs, x.id = id ∧
        { x with status := status, finishedAt := some now, exitCode := some code, generation := gen } = j := by
  unfold finishJob
  apply mem_modify
  exact fun _ => rfl

theorem setJobLogPath_runningIDs {log : String} : (db.setJobLogPath id log).runningIDs = db.runningIDs := by
  refine runningIDs_mapRows (fun j => ?_) (fun j => ?_) rfl
  all_goals
    dsimp only
    split <;> rfl

/-- A row recorded as finished no longer runs. -/
theorem finishJob_runningIDs {status : JobStatus} {code : Int} {gen : Option Int} (hst : status ≠ .running) :
    (db.finishJob id status code gen now).runningIDs = db.runningIDs.filter (· ≠ id) := by
  unfold runningIDs runningJobs finishJob
  show (((db.jobs.rows.map _).filter _).map _) = _
  rw [List.filter_map, List.map_map, List.filter_map, List.filter_filter]
  refine (List.map_congr_left fun j hj => ?_).trans (congrArg _ (List.filter_congr fun j _ => ?_))
  · dsimp only [Function.comp_apply]
    split <;> rfl
  · by_cases hid : j.id = id
    · have hrow : rowid j = id := hid
      simp [hrow, hid, hst]
    · have hrow : ¬ rowid j = id := hid
      simp [hrow, hid]

theorem jobByID_ok {j : Job} (h : db.jobByID id = .ok j) : j ∈ db.jobs ∧ j.id = id := by
  unfold jobByID at h
  split at h
  · rename_i x hx
    cases h
    exact find?_eq_some.1 hx
  · cases h

theorem jobByID_of_mem {j : Job} (h : j ∈ db.jobs) : db.jobByID j.id = .ok j := by
  unfold jobByID
  rw [show db.jobs.find? j.id = some j from find?_mem h]

/-! ## Statements of others -/

theorem deleteWorkload_jobs (h : db.deleteWorkload id = .ok db') :
    db'.jobs = db.jobs.mapRows (Job.detach id) (Job.detach_id id) := by
  obtain rfl := deleteWorkload_ok h
  rfl

theorem markApplied_jobs {revisionID : ID} (h : db.markApplied id revisionID = .ok db') : db'.jobs = db.jobs := by
  obtain rfl := markApplied_ok h
  rfl

theorem createWorkload_jobs {name displayName typ content ports : String} {a : ID}
    (h : db.createWorkload name displayName typ content ports now = .ok (a, db')) : db'.jobs = db.jobs := by
  obtain ⟨-, rfl, rfl⟩ := createWorkload_ok h
  rfl

theorem saveRevision_jobs {content ports note : String} {a : ID}
    (h : db.saveRevision id content ports note now = .ok (a, db')) : db'.jobs = db.jobs := by
  obtain ⟨-, rfl, rfl⟩ := saveRevision_ok h
  rfl

theorem createFlakeInput_jobs {name url : String} {follows : Bool} {a : ID}
    (h : db.createFlakeInput name url follows now = .ok (a, db')) : db'.jobs = db.jobs := by
  obtain ⟨-, rfl, rfl⟩ := createFlakeInput_ok h
  rfl

theorem createSecret_jobs {name owner group mode : String} {wids : List ID} {a : ID}
    (h : db.createSecret name owner group mode wids now = .ok (a, db')) : db'.jobs = db.jobs := by
  obtain ⟨-, rfl, hrep⟩ := createSecret_ok h
  obtain ⟨m, rfl⟩ := replaceMounts_frame hrep
  rfl

theorem updateSecret_jobs {owner group mode : String} {wids : List ID}
    (h : db.updateSecret id owner group mode wids now = .ok db') : db'.jobs = db.jobs := by
  obtain ⟨m, rfl⟩ := replaceMounts_frame h
  rfl

end Db

end Nixbox.Store

namespace Nixbox

open Store

/-- The statement is one of `CreateJob` or `SetJobLogPath`. -/
def Write.onJobs {α : Type} : Write α → Bool
  | .createJob .. | .setJobLogPath .. => true
  | _ => false

/-- The other statements of requests leave the jobs alone. -/
theorem Write.run_jobs {α : Type} {w : Write α} {now : Time} {db db' : Db} {a : α} (hk : w.onJobs = false)
    (h : w.run now db = .ok (a, db')) : db'.jobs = db.jobs := by
  cases w with
  | createJob | setJobLogPath => cases hk
  | createWorkload => exact Db.createWorkload_jobs h
  | saveRevision => exact Db.saveRevision_jobs h
  | createFlakeInput => exact Db.createFlakeInput_jobs h
  | createSecret => exact Db.createSecret_jobs h
  | insertMountOrIgnore => obtain ⟨m, rfl⟩ := Db.insertMountOrIgnore_frame h; rfl
  | updateSecret => exact Db.updateSecret_jobs (Db.unit_ok h)
  | setWorkloadEnabled | setWorkloadDisplayName | updateFlakeInput | deleteFlakeInput | deleteMount
  | touchSecret | deleteSecret => cases h; rfl

end Nixbox
