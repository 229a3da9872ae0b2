/-
Starting a job call by call: which failures of the calls of `Start` leave its row behind, marked
running, and that after every other failure nothing is left of the start.
-/
import Nixbox.Jobs.Manager
import Nixbox.Service.System
import Nixbox.Store.JobRows

namespace Nixbox.Jobs

open Effect Prog Store Keyed Table

/-- The manager is idle and every row marked running was there before. -/
def Undone (s t : State) : Prop := t.busy = false ∧ ∀ j ∈ t.db.jobs, j.status = .running →
    ∃ i ∈ s.db.jobs, i.id = j.id

/-- The row goes in and then a call on it fails. The marks are those of the claim, the insert, the reading back and
the log path. -/
structure RowLeft (s : State) (workloadID : Option ID) (faults : List Bool) : Prop where
  free : s.busy = false
  workload : ∀ id, workloadID = some id → (s.db.workloads.find? id).isSome
  inserted : faults.tail.headD false = false
  fails : ¬Unmarked (faults.drop 2) 2

section Start

variable {s t : State} {kind : JobKind} {workloadID : Option ID} {fn : JobFn} {faults fs : List Bool}

theorem undone_of_jobs (hbusy : t.busy = false) (hjobs : t.db.jobs = s.db.jobs) : Undone s t :=
  ⟨hbusy, fun j hj _ => ⟨j, hjobs ▸ hj, rfl⟩⟩

/-- What `Start` comes to: an error that is not `ErrBusy` leaves nothing unless it leaves the row. -/
def StartOutcome (s : State) (workloadID : Option ID) (faults : List Bool) : Except StartError Job → State → Prop
  | .error (.store _), t => Undone s t ↔ ¬RowLeft s workloadID faults
  | _, _ => ¬RowLeft s workloadID faults

/-- An error gives the slot back and nothing else. -/
theorem giveBack_marked {Q : Except StartError Job → State → List Bool → Prop} {e : Err} :
    EndsMarked Q (giveBack e).run fs s ↔ Q (.error (.store e)) { s with busy := false } fs.tail :=
  endsMarked_exceptT_bind.trans (endsMarked_lift.trans ((endsMarked_perform rfl).trans endsMarked_throw))

/-- The row goes in if the workload it names is there. -/
theorem write_createJob (s : State) (kind : JobKind) (workloadID : Option ID) (log : String) :
    (∃ id t, s.write (.createJob kind workloadID log) = (.ok id, t) ∧
      (∀ wid, workloadID = some wid → (s.db.workloads.find? wid).isSome) ∧ (∀ i ∈ s.db.jobs, i.id ≠ id) ∧
      ∃ j ∈ t.db.jobs, j.id = id ∧ j.status = .running) ∨
    (∃ e t, s.write (.createJob kind workloadID log) = (.error e, t) ∧
      (¬∀ wid, workloadID = some wid → (s.db.workloads.find? wid).isSome) ∧ t.db = s.db) := by
  have hrun : (Write.createJob kind workloadID log).run (s.host.clock s.ticks) s.db =
      s.db.createJob kind workloadID log (s.host.clock s.ticks) := rfl
  unfold State.write
  rw [hrun]
  cases hdb : s.db.createJob kind workloadID log (s.host.clock s.ticks) with
  | ok a =>
    obtain ⟨id, db⟩ := a
    obtain ⟨hthere, rfl, rfl⟩ := Db.createJob_ok hdb
    refine .inl ⟨_, _, rfl, hthere, fun i hi => Int.ne_of_lt (rowid_lt_nextId hi),
      ⟨s.db.jobs.nextId, kind, .running, workloadID, s.host.clock s.ticks, none, none, log, none⟩, ?_, rfl, rfl⟩
    exact mem_insert.2 (.inr rfl)
  | error e =>
    refine .inr ⟨_, _, rfl, fun h => ?_, rfl⟩
    unfold Db.createJob at hdb
    cases workloadID with
    | none => cases hdb
    | some wid =>
      obtain ⟨w, hw⟩ := Option.isSome_iff_exists.1 (h wid rfl)
      rw [if_neg (by simp [hw])] at hdb
      cases hdb

/-- Once the row is in, the failure of a later call leaves it there. -/
theorem rowLeft_outcome (hfree : s.busy = false)
    (hwid : ∀ wid, workloadID = some wid → (s.db.workloads.find? wid).isSome)
    (hins : faults.tail.headD false = false) {id : ID} (hnew : ∀ i ∈ s.db.jobs, i.id ≠ id)
    (hrow : ∃ j ∈ t.db.jobs, j.id = id ∧ j.status = .running) (hfails : ¬Unmarked (faults.drop 2) 2) :
    Undone s t ↔ ¬RowLeft s workloadID faults := by
  refine ⟨fun h => ?_, fun h => absurd ⟨hfree, hwid, hins, hfails⟩ h⟩
  obtain ⟨j, hj, rfl, hrunning⟩ := hrow
  obtain ⟨i, hi, hid⟩ := h.2 j hj hrunning
  exact absurd hid (hnew i hi)

/-- The slot is claimed. -/
theorem launch_marked (kind : JobKind) (workloadID : Option ID) (fn : JobFn) (faults : List Bool)
    (hfree : s.busy = false) : EndsMarked (fun r t _ => StartOutcome s workloadID faults r t)
      (launch kind workloadID fn).run faults.tail { s with busy := true } := by
  have hundone : ∀ t : State, t.db = s.db → Undone s { t with busy := false } := fun t ht =>
    undone_of_jobs rfl (congrArg Db.jobs ht)
  have hmarks : Unmarked (faults.drop 2) 2 ↔ faults.tail.tail.headD false = false ∧
      faults.tail.tail.tail.headD false = false := by
    rw [drop_two, unmarked_two]
  refine endsMarked_exceptT_bind.2 (endsMarked_attempt.2 (endsMarked_exceptT_bind.2 ((endsMarked_call rfl).2 ?_)))
  cases hins : faults.tail.headD false with
  | true =>
    -- the insert fails
    refine giveBack_marked.2 (iff_of_true (hundone _ rfl) fun h => ?_)
    rw [h.inserted] at hins
    cases hins
  | false =>
    rw [if_neg (by decide)]
    rw [show State.exec { s with busy := true } (.write (.createJob kind workloadID "")) =
      State.write { s with busy := true } (.createJob kind workloadID "") from rfl]
    rcases write_createJob { s with busy := true } kind workloadID "" with
      ⟨id, u, hwrite, hwid, hnew, hrow⟩ | ⟨e, u, hwrite, hwid, hdb⟩
    · rw [hwrite]
      refine endsMarked_query.2 ?_
      cases hback : faults.tail.tail.headD false with
      | true =>
        -- the row cannot be read back
        refine giveBack_marked.2 (rowLeft_outcome hfree hwid hins hnew hrow fun h => ?_)
        rw [(hmarks.1 h).1] at hback
        cases hback
      | false =>
        rw [if_neg (by decide)]
        obtain ⟨j, hj, rfl, hrunning⟩ := hrow
        rw [Db.jobByID_of_mem hj]
        refine endsMarked_exceptT_bind.2 (endsMarked_attempt.2 ((endsMarked_call rfl).2 ?_))
        cases hlog : faults.tail.tail.tail.headD false with
        | true =>
          -- the log path cannot be set
          refine giveBack_marked.2 (rowLeft_outcome hfree hwid hins hnew ⟨j, hj, rfl, hrunning⟩ fun h => ?_)
          rw [(hmarks.1 h).2] at hlog
          cases hlog
        | false =>
          refine endsMarked_exceptT_bind.2 (endsMarked_lift.2 ((endsMarked_perform rfl).2 (endsMarked_return.2 ?_)))
          exact fun h => h.fails (hmarks.2 ⟨hback, hlog⟩)
    · -- the workload is not there
      rw [hwrite]
      exact giveBack_marked.2 (iff_of_true (hundone _ hdb) fun h => hwid h.workload)

theorem start_marked (kind : JobKind) (workloadID : Option ID) (fn : JobFn) (s : State) (faults : List Bool) :
    EndsMarked (fun r t _ => StartOutcome s workloadID faults r t) (start kind workloadID fn).run faults s := by
  refine endsMarked_exceptT_bind.2 (endsMarked_lift.2 ((endsMarked_perform rfl).2 ?_))
  show EndsMarked _ (ExceptT.run (if !s.busy then _ else _)) _ _
  cases hbusy : s.busy with
  | true => exact endsMarked_throw.2 fun h => by cases hbusy.symm.trans h.free
  | false => exact launch_marked kind workloadID fn faults hbusy

/-- A start that fails other than by a busy slot leaves the manager idle and no row of its own marked running, unless
its row went in and a later call failed. -/
theorem start_undone_iff (s : State) (kind : JobKind) (workloadID : Option ID) (fn : JobFn) (faults : List Bool) :
    (∀ e, ((start kind workloadID fn).run.runWith faults s).1 = .error e → e ≠ .busy →
      Undone s ((start kind workloadID fn).run.runWith faults s).2) ↔ ¬RowLeft s workloadID faults := by
  have hout := endsMarked_iff.1 (start_marked kind workloadID fn s faults)
  generalize ((start kind workloadID fn).run.runWith faults s).1 = r at hout ⊢
  generalize ((start kind workloadID fn).run.runWith faults s).2 = t at hout ⊢
  match r, hout with
  | .ok job, hout => exact ⟨fun _ => hout, fun _ e he => by cases he⟩
  | .error .busy, hout => exact ⟨fun _ => hout, fun _ e he hne => by cases he; exact absurd rfl hne⟩
  | .error (.store e), hout => exact ⟨fun h => hout.1 (h _ rfl nofun), fun h e' _ _ => hout.2 h⟩

/-- The row is inserted and read back, and its log path cannot be set. -/
theorem start_rowLeft : ¬ ∀ (s : State) (kind : JobKind) (workloadID : Option ID) (fn : JobFn) (faults : List Bool),
    s.Reachable → ∀ e, ((start kind workloadID fn).run.runWith faults s).1 = .error e → e ≠ .busy →
      Undone s ((start kind workloadID fn).run.runWith faults s).2 := by
  intro h
  have hundone := h (State.fresh exampleHost) .flakeUpdate none (.apply .switch [] [] []) [false, false, false, true]
    ⟨exampleHost, [], rfl⟩ (.store .failed) (by decide +kernel) nofun
  have hrow : ∃ j ∈ ((start .flakeUpdate none (.apply .switch [] [] [])).run.runWith [false, false, false, true]
      (State.fresh exampleHost)).2.db.jobs, j.status = .running := by decide +kernel
  obtain ⟨j, hj, hrunning⟩ := hrow
  obtain ⟨i, hi, -⟩ := hundone.2 j hj hrunning
  cases hi

end Start

end Nixbox.Jobs
