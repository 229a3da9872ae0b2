/-
What one step of a job can do, said once: the results about jobs go by the cases of `Stepped`.
-/
import Nixbox.Jobs.Manager
import Nixbox.Store.Invariant

namespace Nixbox.Jobs

open Effect Store

/-- The rebuild ended before `nixos-rebuild` was done. -/
def Rebuilt.bad (r : Rebuilt) : Prop := r.failed = true ∨ r.code ≠ 0

/-- The step of job `j` in state `s` and what it leaves. -/
inductive Stepped (i : Input) (s : State) (j : Running) : State → Running → Prop
  | opened (h : j.phase = .logFile) : Stepped i s j s { j with phase := begin j.fn }
  | stopped (h : j.phase = .stop) : Stepped i s j s { j with phase := .lock }
  | locked (h : j.phase = .lock) : Stepped i s j s { j with phase := .refresh }
  | lockFailed {r : Rebuilt} (h : j.phase = .lock) (hr : Rebuilt.bad r) : Stepped i s j s (rebuildReturned j r)
  | refreshed (h : j.phase = .refresh) :
    Stepped i s j s { j with picked := some s.disk, phase := .switch }
  | refreshFailed {r : Rebuilt} (h : j.phase = .refresh) (hr : Rebuilt.bad r) :
    Stepped i s j s (rebuildReturned { j with picked := some s.disk } r)
  | switched (h : j.phase = .switch) : Stepped i s j s (rebuildReturned j ⟨0, i.gen, false⟩)
  | switchFailed {r : Rebuilt} (h : j.phase = .switch) (hr : Rebuilt.bad r) :
    Stepped i s j s (rebuildReturned j r)
  | markedWorkload {ws inputs secrets k wid rid db} (h : j.phase = .mark ws inputs secrets)
    (hk : ws[k]? = some (wid, rid)) (hdb : s.db.markApplied wid rid = .ok db) :
    Stepped i s j { s with db := db } { j with phase := .mark (ws.eraseIdx k) inputs secrets }
  | markedInput {id inputs secrets} (h : j.phase = .mark [] (id :: inputs) secrets) :
    Stepped i s j
      { s with db := s.db.markFlakeInputApplied id (s.host.clock s.ticks), ticks := s.ticks + 1 }
      { j with phase := .mark [] inputs secrets }
  | markedSecret {id secrets} (h : j.phase = .mark [] [] (id :: secrets)) :
    Stepped i s j
      { s with db := s.db.markSecretApplied id (s.host.clock s.ticks), ticks := s.ticks + 1 }
      { j with phase := .mark [] [] secrets }
  | markedAll (h : j.phase = .mark [] [] []) : Stepped i s j s (return_ j 0 false)
  | markFailed {ws inputs secrets} (h : j.phase = .mark ws inputs secrets)
    (hwhy : i.fault = true ∨ ∃ w ∈ ws, ∃ e, s.db.markApplied w.1 w.2 = .error e) :
    Stepped i s j s (return_ j 0 true)
  | deletedRow {name id type deleteData db} (h : j.phase = .deleteRow)
    (hfn : j.fn = .destroy name id type deleteData) (hdb : s.db.deleteWorkload id = .ok db) :
    Stepped i s j { s with db := db } { j with phase := .removeDir }
  | removedDir {name id type deleteData} (h : j.phase = .removeDir)
    (hfn : j.fn = .destroy name id type deleteData) (hf : i.fault = false) :
    Stepped i s j { s with disk.workloads := s.disk.workloads.remove name } { j with phase := .removeData }
  | removedData {failed} {code} (h : j.phase = .removeData) : Stepped i s j s (return_ j code failed)
  | gaveUp {code} (h : j.phase = .logFile ∨ j.phase = .deleteRow ∨ j.phase = .removeDir) :
    Stepped i s j s (return_ j code true)
  | finished (h : j.phase = .finish) : Stepped i s j (finish j s) { j with phase := .release }
  | notFinished (h : j.phase = .finish) (hf : i.fault = true) : Stepped i s j s { j with phase := .release }
  | released (h : j.phase = .release) : Stepped i s j { s with busy := false } { j with phase := .exited }

theorem command_cases {P : Running → Prop} {j next : Running} {cmd : Except Unit Int}
    (hnext : P next) (hbad : ∀ r, Rebuilt.bad r → P (rebuildReturned j r)) : P (command j cmd next) := by
  unfold command
  split
  · exact hbad _ (.inl rfl)
  · split
    · exact hnext
    · rename_i hcode
      exact hbad _ (.inr hcode)

theorem mark_stepped {i : Input} {s : State} {j : Running} {ws : List (ID × ID)} {inputs secrets : List ID}
    (h : j.phase = .mark ws inputs secrets) :
    Stepped i s j (mark i j s ws inputs secrets).1 (mark i j s ws inputs secrets).2 := by
  cases ws with
  | cons w ws =>
    unfold mark markWorkload
    dsimp only
    -- the host picks one of the workloads left
    have hlt : i.pick % (w :: ws).length < (w :: ws).length := Nat.mod_lt _ (by simp)
    have hget : (w :: ws)[i.pick % (w :: ws).length]? = some ((w :: ws).getD (i.pick % (w :: ws).length) w) := by
      rw [List.getD_eq_getElem?_getD, List.getElem?_eq_getElem hlt]
      rfl
    generalize (w :: ws).getD (i.pick % (w :: ws).length) w = entry at *
    by_cases hf : i.fault = true
    · rw [if_pos hf]
      exact .markFailed h (.inl hf)
    · rw [if_neg hf]
      cases hdb : s.db.markApplied entry.1 entry.2 with
      | ok db => exact .markedWorkload h hget hdb
      | error e => exact .markFailed h (.inr ⟨entry, List.mem_of_getElem? hget, e, hdb⟩)
  | nil =>
    cases inputs with
    | cons id inputs =>
      simp only [mark]
      split
      · rename_i hf; exact .markFailed h (.inl hf)
      · exact .markedInput h
    | nil =>
      cases secrets with
      | cons id secrets =>
        simp only [mark]
        split
        · rename_i hf; exact .markFailed h (.inl hf)
        · exact .markedSecret h
      | nil => exact .markedAll h

theorem destroy_stepped {i : Input} {s : State} {j : Running} {name : String} {id : ID} {type : String}
    {deleteData : Bool} (hfn : j.fn = .destroy name id type deleteData)
    (h : j.phase = .deleteRow ∨ j.phase = .removeDir ∨ j.phase = .removeData) :
    Stepped i s j (destroy i j s name id type deleteData j.phase).1
      (destroy i j s name id type deleteData j.phase).2 := by
  rcases h with h | h | h <;> rw [h] <;> unfold destroy
  · dsimp only
    by_cases hf : i.fault = true
    · rw [if_pos hf]
      exact .gaveUp (.inr (.inl h))
    · rw [if_neg hf]
      cases hdb : s.db.deleteWorkload id with
      | ok db => exact .deletedRow h hfn hdb
      | error e => exact .gaveUp (.inr (.inl h))
  · dsimp only
    split
    · exact .gaveUp (.inr (.inr h))
    · exact .removedDir h hfn (by simpa using ‹¬ i.fault = true›)
  · dsimp only
    split
    · split
      · exact .removedData h
      · exact .removedData h
    · exact .removedData h

theorem run_stepped {i : Input} {j j' : Running} {s s' : State} (h : run i j s = some (s', j')) :
    Stepped i s j s' j' := by
  unfold run at h
  split at h
  · rename_i hp
    cases h
    split
    · exact .gaveUp (.inl hp)
    · exact .opened hp
  · cases h; exact .stopped ‹_›
  · cases h
    exact command_cases (.locked ‹_›) fun r hr => .lockFailed ‹_› hr
  · cases h
    exact command_cases (.refreshed ‹_›) fun r hr => .refreshFailed ‹_› hr
  · cases h
    exact command_cases (.switched ‹_›) fun r hr => .switchFailed ‹_› hr
  · rename_i hp
    -- the marks and the deletions have spec lemmas of their own
    have hstep := mark_stepped (i := i) (s := s) hp
    rw [Option.some.inj h] at hstep
    exact hstep
  · split at h
    · have hstep := destroy_stepped (i := i) (s := s) ‹_› (.inl ‹_›)
      rw [Option.some.inj h] at hstep
      exact hstep
    · cases h
  · split at h
    · have hstep := destroy_stepped (i := i) (s := s) ‹_› (.inr (.inl ‹_›))
      rw [Option.some.inj h] at hstep
      exact hstep
    · cases h
  · split at h
    · have hstep := destroy_stepped (i := i) (s := s) ‹_› (.inr (.inr ‹_›))
      rw [Option.some.inj h] at hstep
      exact hstep
    · cases h
  · rename_i hp
    cases h
    split
    · exact .notFinished hp ‹_›
    · exact .finished hp
  · cases h; exact .released ‹_›
  · cases h

/-! ## What a step leaves as it was -/

section Frame

variable {i : Input} {s s' : State} {j j' : Running} {r : Rebuilt}

theorem rebuildReturned_frame :
    (rebuildReturned j r).fn = j.fn ∧ (rebuildReturned j r).row = j.row ∧
      (rebuildReturned j r).picked = j.picked ∧ (rebuildReturned j r).rebuilt = some r := by
  unfold rebuildReturned
  dsimp only
  split <;> split <;> exact ⟨rfl, rfl, rfl, rfl⟩

/-- After a rebuild that ended badly the job only finishes. -/
theorem rebuildReturned_bad (hr : Rebuilt.bad r) :
    (rebuildReturned j r).phase = .finish ∧ (rebuildReturned j r).result = some ⟨r.code, r.failed⟩ := by
  unfold rebuildReturned
  dsimp only
  split
  · rw [if_neg]
    · exact ⟨rfl, rfl⟩
    · intro hgood
      simp only [Bool.and_eq_true, Bool.not_eq_true', beq_iff_eq] at hgood
      rcases hr with hr | hr
      · rw [hgood.1.1] at hr
        cases hr
      · exact hr hgood.1.2
  · rw [if_pos]
    · exact ⟨rfl, rfl⟩
    · rcases hr with hr | hr
      · rw [hr]
        rfl
      · simp [hr]

/-- A step keeps the job's function and row, and of the disk everything but a workload's directory. -/
theorem Stepped.frame (h : Stepped i s j s' j') :
    j'.fn = j.fn ∧ j'.row = j.row ∧ s'.host = s.host ∧ s'.disk.indexNix = s.disk.indexNix ∧
      s'.disk.flakeNix = s.disk.flakeNix ∧ s'.disk.secrets = s.disk.secrets := by
  cases h with
  | lockFailed | refreshFailed | switched | switchFailed =>
    exact ⟨rebuildReturned_frame.1, rebuildReturned_frame.2.1, rfl, rfl, rfl, rfl⟩
  | _ => exact ⟨rfl, rfl, rfl, rfl, rfl, rfl⟩

/-- Only a running job takes a step. -/
theorem Stepped.running (h : Stepped i s j s' j') : j.phase ≠ .exited := by
  cases h with
  | gaveUp hp => rcases hp with hp | hp | hp <;> rw [hp] <;> exact nofun
  | opened hp | stopped hp | locked hp | lockFailed hp | refreshed hp | refreshFailed hp | switched hp
  | switchFailed hp | markedWorkload hp | markedInput hp | markedSecret hp | markedAll hp | markFailed hp
  | deletedRow hp | removedDir hp | removedData hp | finished hp | notFinished hp | released hp =>
    rw [hp]; exact nofun

/-- What the rebuild picked up changes only when the input is refreshed, to the disk of then. -/
theorem Stepped.picked (h : Stepped i s j s' j') :
    j'.picked = j.picked ∨ (j.phase = .refresh ∧ j'.picked = some s.disk) := by
  cases h with
  | lockFailed | switched | switchFailed => exact .inl rebuildReturned_frame.2.2.1
  | refreshed hp => exact .inr ⟨hp, rfl⟩
  | refreshFailed hp => exact .inr ⟨hp, rebuildReturned_frame.2.2.1⟩
  | _ => exact .inl rfl

theorem Stepped.wf (h : Stepped i s j s' j') (hwf : s.db.WF) : s'.db.WF := by
  cases h with
  | markedWorkload _ _ hdb => exact Db.markApplied_wf hwf hdb
  | markedInput => refine { hwf with inputNames := hwf.inputNames.modify ?_ ?_ }; all_goals exact fun _ => rfl
  | markedSecret => refine { hwf with secretNames := hwf.secretNames.modify ?_ ?_ }; all_goals exact fun _ => rfl
  | deletedRow _ _ hdb => exact Db.deleteWorkload_wf hwf hdb
  | finished => exact { hwf with }
  | _ => exact hwf

end Frame

/-- A step is the step of the job in the slot. -/
theorem step_some {i : Input} {s s' : State} (h : step i s = some s') :
    ∃ j t j', s.job = some j ∧ Stepped i s j t j' ∧ s' = { t with job := some j' } := by
  obtain ⟨j, hj, h⟩ := Option.bind_eq_some_iff.1 h
  obtain ⟨⟨t, j'⟩, hrun, h⟩ := Option.bind_eq_some_iff.1 h
  cases h
  exact ⟨j, t, j', hj, run_stepped hrun, rfl⟩

theorem Stepped.inFlight {i : Input} {s s' : State} {j j' : Running} (h : Stepped i s j s' j')
    (hj : s.job = some j) : s.inFlight = true := by
  unfold State.inFlight
  rw [hj, Option.any_some, bne_iff_ne]
  exact h.running

end Nixbox.Jobs
