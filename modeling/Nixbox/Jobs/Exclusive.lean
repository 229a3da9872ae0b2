/-
One job at a time. The slot is claimed exactly while one task is past its swap, and the rows marked
running are exactly those of that task; so of all the calls under way one can write the jobs table,
and it writes the row of its own running job.
-/
import Nixbox.Jobs.Slot

namespace Nixbox.Slot

open Keyed Table Store Jobs

/-! ## What a task has -/

/-- The task has claimed the slot and not given it back. -/
def Task.holds : Task → Bool
  | .start _ _ _ .swap => false
  | _ => true

/-- The row that runs as long as the task has not recorded its end. -/
def Task.runningRow : Task → Option ID
  | .start _ _ _ (.read id) | .start _ _ _ (.setLogPath id) | .start _ _ _ (.launch id) => some id
  | .job _ id .createLog | .job _ id .function | .job _ id (.finish _) => some id
  | _ => none

theorem Task.holds_of_runningRow {t : Task} (h : t.holds = false) : t.runningRow = none := by
  unfold holds at h
  split at h
  · rfl
  · cases h

theorem Task.holds_of_inFunction {t : Task} (h : t.inFunction = true) : t.holds = true := by
  unfold inFunction at h
  split at h
  · rfl
  · cases h

/-- The number of tasks that have claimed the slot. -/
def holders (ts : List Task) : Nat := ts.countP Task.holds

/-- The rows the tasks run. -/
def rowsOf (ts : List Task) : List ID := ts.filterMap Task.runningRow

section Lists

variable {t : Task} {pre post ts : List Task}

theorem holders_append : holders (pre ++ post) = holders pre + holders post := List.countP_append

theorem rowsOf_append : rowsOf (pre ++ post) = rowsOf pre ++ rowsOf post := List.filterMap_append

theorem rowsOf_of_holders (h : holders ts = 0) : rowsOf ts = [] := by
  refine List.filterMap_eq_nil_iff.2 fun t ht => Task.holds_of_runningRow ?_
  simpa using List.countP_eq_zero.1 h t ht

theorem holders_cons : holders (t :: ts) = holders ts + t.holds.toNat := by
  unfold holders
  rw [List.countP_cons]
  cases t.holds <;> rfl

theorem rowsOf_cons : rowsOf (t :: ts) = t.runningRow.toList ++ rowsOf ts := by
  unfold rowsOf
  rw [List.filterMap_cons]
  cases t.runningRow <;> rfl

theorem length_rowsOf_le (ts : List Task) : (rowsOf ts).length ≤ holders ts := by
  induction ts with
  | nil => exact Nat.le_refl _
  | cons t ts ih =>
    rw [rowsOf_cons, holders_cons, List.length_append]
    cases ht : t.holds with
    | true => cases t.runningRow <;> simp <;> omega
    | false => simp [Task.holds_of_runningRow ht, ih]

/-- The tasks in their functions are among the holders. -/
theorem inFunction_le_holders (ts : List Task) : ts.countP Task.inFunction ≤ holders ts :=
  List.countP_mono_left fun _ _ h => Task.holds_of_inFunction h

end Lists

/-! ## What a step can do -/

namespace Process

/-- The step of a task whose store calls do not fail, and what it leaves in the task's place. -/
inductive Stepped (p : Process) (a : Act) : Task → Process → List Task → Prop
  | refused {call kind wid} (hbusy : p.busy = true) :
    Stepped p a (.start call kind wid .swap) (p.note (.answered call (.error .busy))) []
  | claimed {call kind wid} (hbusy : p.busy = false) :
    Stepped p a (.start call kind wid .swap) { p with busy := true } [.start call kind wid .create]
  | created {call kind wid id db} (hdb : p.db.createJob kind wid "" p.now = .ok (id, db)) :
    Stepped p a (.start call kind wid .create) ((p.wrote db).note (.created call id))
      [.start call kind wid (.read id)]
  | notCreated {call kind wid e} :
    Stepped p a (.start call kind wid .create) p [.start call kind wid (.giveBack e)]
  | read {call kind wid id} :
    Stepped p a (.start call kind wid (.read id)) p [.start call kind wid (.setLogPath id)]
  | notRead {call kind wid id e} (hdb : p.db.jobByID id = .error e) :
    Stepped p a (.start call kind wid (.read id)) p [.start call kind wid (.giveBack e)]
  | logged {call kind wid id} :
    Stepped p a (.start call kind wid (.setLogPath id)) (p.wrote (p.db.setJobLogPath id (jobLog id)))
      [.start call kind wid (.launch id)]
  | launched {call kind wid id} :
    Stepped p a (.start call kind wid (.launch id)) (p.note (.answered call (.ok id))) [.job call id .createLog]
  | gaveBack {call kind wid e} :
    Stepped p a (.start call kind wid (.giveBack e))
      ({ p with busy := false }.note (.answered call (.error (.store e)))) []
  | notOpened {call row} : Stepped p a (.job call row .createLog) p [.job call row (.finish none)]
  | opened {call row} :
    Stepped p a (.job call row .createLog) (p.note (.ran call row)) [.job call row .function]
  | ran {call row} {q : Statement} (ha : a = .runs q) (hq : q.ofManager = false) :
    Stepped p a (.job call row .function) (p.wrote (q.run p.now p.db)) [.job call row .function]
  | returned {call row r} :
    Stepped p a (.job call row .function) (p.note (.returned row r)) [.job call row (.finish (some r))]
  | recorded {call row r} :
    Stepped p a (.job call row (.finish (some r)))
      ((p.wrote (p.db.finishJob row (outcome (some r)).status (outcome (some r)).exitCode
        (outcome (some r)).generation p.now)).note (.recorded row r)) [.job call row .release]
  | recordedFailure {call row} :
    Stepped p a (.job call row (.finish none)) (p.wrote (p.db.finishJob row .failed (-1) none p.now))
      [.job call row .release]
  | released {call row} : Stepped p a (.job call row .release) { p with busy := false } []

variable {p p' q : Process} {t : Task} {ts : List Task} {a : Act}

theorem startStep_stepped (call : Nat) (kind : JobKind) (wid : Option ID) (next : Starting)
    (ha : a.failing = false) : Stepped p a (.start call kind wid next) (p.startStep call kind wid a next).1
      (p.startStep call kind wid a next).2 := by
  cases next with
  | swap =>
    dsimp only [startStep]
    split
    · rename_i hbusy; exact .refused hbusy
    · rename_i hbusy; exact .claimed (Bool.eq_false_iff.2 hbusy)
  | create =>
    simp only [startStep, ha, Bool.false_eq_true, if_false]
    split
    · exact .notCreated
    · rename_i hdb; exact .created hdb
  | read id =>
    simp only [startStep, ha, Bool.false_eq_true, if_false]
    split
    · rename_i hdb; exact .notRead hdb
    · rename_i hdb
      rw [(Db.jobByID_ok hdb).2]
      exact .read
  | setLogPath id =>
    simp only [startStep, ha, Bool.false_eq_true, if_false]
    exact .logged
  | launch id => exact .launched
  | giveBack e => exact .gaveBack

theorem jobStep_stepped {call : Nat} {row : ID} {stage : Stage} (ha : a.failing = false)
    (h : p.jobStep call row a stage = some (q, ts)) : Stepped p a (.job call row stage) q ts := by
  cases stage with
  | createLog =>
    dsimp only [jobStep] at h
    split at h
    · cases h; exact .notOpened
    · cases h; exact .opened
  | function =>
    dsimp only [jobStep] at h
    split at h
    · split at h
      · cases h
      · rename_i hq
        cases h
        exact .ran rfl (Bool.eq_false_iff.2 hq)
    · cases h; exact .returned
    · cases h
  | finish r =>
    simp only [jobStep, ha, Bool.false_eq_true, if_false] at h
    cases r with
    | none => cases h; exact .recordedFailure
    | some r => cases h; exact .recorded
  | release => cases h; exact .released

theorem taskStep_stepped (ha : a.failing = false) (h : p.taskStep a t = some (q, ts)) : Stepped p a t q ts := by
  cases t with
  | start call kind wid next =>
    have hst : Stepped p a _ _ _ := startStep_stepped call kind wid next ha
    rw [Option.some.inj h] at hst
    exact hst
  | job call row stage => exact jobStep_stepped ha h

/-- A step of the process as that of one of its tasks, the others standing around it. -/
theorem stepAt_some {i : Nat} (h : p.stepAt i a = some p') : ∃ pre t post q ts,
    p.tasks = pre ++ t :: post ∧ p.taskStep a t = some (q, ts) ∧ p' = { q with tasks := pre ++ ts ++ post } := by
  unfold stepAt at h
  obtain ⟨t, ht, h⟩ := Option.bind_eq_some_iff.1 h
  obtain ⟨⟨q, ts⟩, hq, h'⟩ := Option.bind_eq_some_iff.1 h
  obtain ⟨hi, htask⟩ := List.getElem?_eq_some_iff.1 ht
  refine ⟨p.tasks.take i, t, p.tasks.drop (i + 1), q, ts, ?_, hq, (Option.some.inj h').symm⟩
  rw [← htask, List.getElem_cons_drop hi, List.take_append_drop]

/-! ## The slot and the running row -/

/-- The slot is claimed while one task holds it, at most one row runs, and from the end of
`RecoverStale` on it is the row of that task. -/
structure Sound (p : Process) : Prop where
  slot : holders p.tasks = p.busy.toNat
  booting : p.boot ≠ .up → p.tasks = []
  single : p.db.runningIDs.length ≤ 1
  stale : ∀ rows, p.boot = .finish rows → p.db.runningIDs = rows
  owned : p.boot = .up → p.db.runningIDs = rowsOf p.tasks

theorem sound_fresh (clock : Nat → Time) : (fresh clock).Sound :=
  ⟨rfl, fun _ => rfl, Nat.zero_le _, fun _ h => (nomatch h), fun h => (nomatch h)⟩

theorem sound_crash (h : p.Sound) : p.crash.Sound :=
  ⟨rfl, fun _ => rfl, h.single, fun _ h => (nomatch h), fun h => (nomatch h)⟩

/-- A task that holds the slot is the only one, and its row the only one running. -/
theorem Sound.alone (h : p.Sound) {pre post : List Task} (hp : p.tasks = pre ++ t :: post)
    (ht : t.holds = true) : p.busy = true ∧ rowsOf pre = [] ∧ rowsOf post = [] ∧
      p.db.runningIDs = t.runningRow.toList := by
  have hslot := h.slot
  rw [hp, holders_append, holders_cons, ht, Bool.toNat_true] at hslot
  have hle : p.busy.toNat ≤ 1 := Bool.toNat_le _
  have hpre : rowsOf pre = [] := rowsOf_of_holders (by omega)
  have hpost : rowsOf post = [] := rowsOf_of_holders (by omega)
  refine ⟨?_, hpre, hpost, ?_⟩
  · cases hb : p.busy with
    | true => rfl
    | false => rw [hb, Bool.toNat_false] at hslot; omega
  · have hup : p.boot = .up := by
      by_contra hne
      simp [h.booting hne] at hp
    rw [h.owned hup, hp, rowsOf_append, rowsOf_cons, hpre, hpost]
    simp

theorem Stepped.frame (h : Stepped p a t q ts) : q.boot = p.boot ∧ q.calls = p.calls := by
  cases h <;> exact ⟨rfl, rfl⟩

theorem Stepped.slot (h : Stepped p a t q ts) (hb : t.holds = true → p.busy = true) :
    q.busy.toNat + t.holds.toNat = p.busy.toNat + holders ts := by
  cases h with
  | claimed hbusy => simp [hbusy, holders, Task.holds]
  | gaveBack | released => simp [hb rfl, note, holders, Task.holds]
  | _ => simp [note, wrote, holders, Task.holds]

theorem outcome_status (r : Option Returned) : (outcome r).status ≠ .running := by
  unfold outcome
  split
  · nofun
  · split
    · nofun
    · split <;> nofun

/-- The statements of others leave the jobs as they are, but for those of a deleted workload. -/
theorem run_jobs {s : Statement} (hq : s.ofManager = false) (now : Time) (db : Db) :
    (s.run now db).jobs = db.jobs ∨
      ∃ wid, s = .deleteWorkload wid ∧
        (s.run now db).jobs = db.jobs.mapRows (Job.detach wid) (Job.detach_id wid) := by
  cases s with
  | write w =>
    left
    unfold Statement.run
    dsimp only
    split
    · rename_i hw; exact Write.run_jobs hq hw
    · rfl
  | markApplied wid rid =>
    left
    unfold Statement.run
    dsimp only
    split
    · rename_i hw; exact Db.markApplied_jobs hw
    · rfl
  | markFlakeInputApplied | markSecretApplied => exact .inl rfl
  | deleteWorkload wid =>
    unfold Statement.run
    dsimp only
    split
    · rename_i hw; exact .inr ⟨wid, rfl, Db.deleteWorkload_jobs hw⟩
    · exact .inl rfl

theorem run_runningIDs {s : Statement} (hq : s.ofManager = false) (now : Time) (db : Db) :
    (s.run now db).runningIDs = db.runningIDs := by
  rcases run_jobs hq now db with h | ⟨wid, -, h⟩
  · exact Db.runningIDs_congr h
  · exact Db.runningIDs_mapRows _ (Job.detach_status wid) h

/-- The rows that run after a step are those of what it leaves, if those before it were. -/
theorem Stepped.rows (h : Stepped p a t q ts) (hrows : p.db.runningIDs = t.runningRow.toList) :
    q.db.runningIDs = rowsOf ts := by
  cases h with
  | refused | claimed | read | launched | gaveBack | notOpened | opened | returned | released
  | notCreated => exact hrows
  | created hdb =>
    refine (Db.createJob_runningIDs hdb).trans ?_
    rw [hrows]
    rfl
  | @notRead call kind wid id e hdb =>
    -- the row just inserted is there
    have hmem : id ∈ p.db.runningIDs := by simp [hrows, Task.runningRow]
    obtain ⟨j, hj, rfl, -⟩ := Db.mem_runningIDs.1 hmem
    rw [Db.jobByID_of_mem hj] at hdb
    cases hdb
  | logged => exact Db.setJobLogPath_runningIDs.trans hrows
  | ran _ hq => exact (run_runningIDs hq _ _).trans hrows
  | recorded =>
    refine (Db.finishJob_runningIDs (outcome_status _)).trans ?_
    rw [hrows]
    simp [Task.runningRow, rowsOf]
  | recordedFailure =>
    refine (Db.finishJob_runningIDs (by nofun)).trans ?_
    rw [hrows]
    simp [Task.runningRow, rowsOf]

theorem Stepped.rowsOf_eq_nil (h : Stepped p a t q ts) (ht : t.holds = false) :
    q.db = p.db ∧ rowsOf ts = [] := by
  cases h with
  | refused | claimed => exact ⟨rfl, rfl⟩
  | _ => cases ht

theorem sound_stepped {pre post : List Task} (h : p.Sound) (hp : p.tasks = pre ++ t :: post)
    (hst : Stepped p a t q ts) : ({ q with tasks := pre ++ ts ++ post } : Process).Sound := by
  have hslot := h.slot
  rw [hp, holders_append, holders_cons] at hslot
  have hup : p.boot = .up := by
    by_contra hne
    simp [h.booting hne] at hp
  have hboot : q.boot = .up := hst.frame.1.trans hup
  have hs := hst.slot fun ht => (h.alone hp ht).1
  have hrows : q.db.runningIDs = rowsOf (pre ++ ts ++ post) := by
    rw [rowsOf_append, rowsOf_append]
    cases ht : t.holds with
    | true =>
      obtain ⟨-, hpre, hpost, hrun⟩ := h.alone hp ht
      simp [hst.rows hrun, hpre, hpost]
    | false =>
      obtain ⟨hdb, hts⟩ := hst.rowsOf_eq_nil ht
      rw [hdb, h.owned hup, hp, rowsOf_append, rowsOf_cons, hts, Task.holds_of_runningRow ht]
      simp
  have hholders : holders (pre ++ ts ++ post) = q.busy.toNat := by
    rw [holders_append, holders_append]
    omega
  refine ⟨hholders, fun hne => absurd hboot hne, ?_, fun rows hr => ?_, fun _ => hrows⟩
  · show q.db.runningIDs.length ≤ 1
    rw [hrows]
    calc (rowsOf (pre ++ ts ++ post)).length ≤ holders (pre ++ ts ++ post) := length_rowsOf_le _
      _ ≤ 1 := hholders ▸ Bool.toNat_le _
  · rw [hboot] at hr; cases hr

/-! ## The rows -/

/-- What a step does to the jobs table; `D` are the workloads it deletes. -/
inductive Change (D : ID → Prop) (db db' : Db) : Prop
  | same (h : db'.jobs = db.jobs)
  | detached {wid} (hd : D wid) (h : db'.jobs = db.jobs.mapRows (Job.detach wid) (Job.detach_id wid))
  | created {kind wid now id} (h : db.createJob kind wid "" now = .ok (id, db'))
  | located {id log} (hrun : id ∈ db.runningIDs) (h : db' = db.setJobLogPath id log)
  | finished {id now} (r : Option Returned) (hrun : id ∈ db.runningIDs)
    (h : db' = db.finishJob id (outcome r).status (outcome r).exitCode (outcome r).generation now)

theorem Stepped.change (h : Stepped p a t q ts)
    (hrows : t.holds = true → p.db.runningIDs = t.runningRow.toList) :
    Change (fun wid => a = .runs (.deleteWorkload wid)) p.db q.db := by
  have hrun : ∀ id, t.runningRow = some id → id ∈ p.db.runningIDs := fun id ht => by
    cases hh : t.holds with
    | true => simp [hrows hh, ht]
    | false => simp [Task.holds_of_runningRow hh] at ht
  cases h with
  | created hdb => exact .created hdb
  | logged => exact .located (hrun _ rfl) rfl
  | @ran call row s ha hq =>
    rcases run_jobs hq p.now p.db with h | ⟨wid, rfl, h⟩
    · exact .same h
    · exact .detached ha h
  | recorded => exact .finished (some _) (hrun _ rfl) rfl
  | recordedFailure => exact .finished none (hrun _ rfl) rfl
  | _ => exact .same rfl

theorem Change.kept {D : ID → Prop} {db db' : Db} (h : Change D db db') : db.Kept D db' := by
  cases h with
  | same h => exact Db.kept_of_jobs h
  | detached hd h => exact Db.kept_detach hd h
  | created h =>
    obtain ⟨-, -, rfl⟩ := Db.createJob_ok h
    exact fun j hj _ => .inl (mem_insert.2 (.inl hj))
  | located hrun h => exact Db.kept_of_others hrun fun j hj hid => h ▸ Db.mem_setJobLogPath.2 (.inl ⟨hj, hid⟩)
  | finished r hrun h => exact Db.kept_of_others hrun fun j hj hid => h ▸ Db.mem_finishJob.2 (.inl ⟨hj, hid⟩)

/-- A row tells how its job ended. -/
structure Tells (j : Job) (o : Outcome) : Prop where
  status : j.status = o.status
  exitCode : j.exitCode = some o.exitCode
  generation : j.generation = o.generation

theorem tells_finishJob {db : Db} {id : ID} {o : Outcome} {now : Time} (hrun : id ∈ db.runningIDs) :
    ∃ j ∈ (db.finishJob id o.status o.exitCode o.generation now).jobs, j.id = id ∧ Tells j o := by
  obtain ⟨j, hj, hid, -⟩ := Db.mem_runningIDs.1 hrun
  exact ⟨_, Db.mem_finishJob.2 (.inr ⟨j, hj, hid, rfl⟩), hid, rfl, rfl, rfl⟩

/-- A failed row has a non-zero exit code. -/
def Failing (j : Job) : Prop := j.status = .failed → ∃ code, j.exitCode = some code ∧ code ≠ 0

theorem outcome_failing (r : Option Returned) (h : (outcome r).status = .failed) : (outcome r).exitCode ≠ 0 := by
  unfold outcome at h ⊢
  split
  · decide
  · rename_i r
    dsimp only at h ⊢
    split
    · dsimp only
      split <;> omega
    · rename_i hfailed
      rw [if_neg hfailed] at h
      split
      · rename_i hcode; exact hcode
      · rename_i hcode
        rw [if_neg hcode] at h
        cases h

theorem outcome_ok (r : Returned) : (outcome (some r)).status = .ok ↔ r.failed = false ∧ r.exitCode = 0 := by
  unfold outcome
  dsimp only
  split
  · rename_i hf; simp [hf]
  · rename_i hf
    split <;> rename_i hcode <;> simp_all

theorem outcome_generation (r : Returned) : (outcome (some r)).generation = r.generation := by
  unfold outcome
  dsimp only
  split
  · rfl
  · split <;> rfl

theorem Change.failing {D : ID → Prop} {db db' : Db} (h : Change D db db') (hdb : ∀ j ∈ db.jobs, Failing j) :
    ∀ j ∈ db'.jobs, Failing j := by
  intro j hj
  cases h with
  | same h => exact hdb j (h ▸ hj)
  | @detached wid hd h =>
    rw [h] at hj
    obtain ⟨x, hx, rfl⟩ := mem_mapRows.1 hj
    rcases x.detach_cases wid with heq | ⟨heq, -⟩ <;> rw [heq] <;> exact hdb x hx
  | created h =>
    obtain ⟨-, -, rfl⟩ := Db.createJob_ok h
    rcases mem_insert.1 hj with hj | rfl
    · exact hdb j hj
    · exact fun hst => (nomatch hst)
  | located hrun h =>
    rw [h] at hj
    rcases Db.mem_setJobLogPath.1 hj with ⟨hj, -⟩ | ⟨x, hx, -, rfl⟩
    · exact hdb j hj
    · exact hdb x hx
  | finished r hrun h =>
    rw [h] at hj
    rcases Db.mem_finishJob.1 hj with ⟨hj, -⟩ | ⟨x, hx, -, rfl⟩
    · exact hdb j hj
    · exact fun hst => ⟨_, rfl, outcome_failing r hst⟩

end Process

end Nixbox.Slot
