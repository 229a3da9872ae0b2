/-
Power requests beside the jobs: each looks whether a job is running and has the host go down, in two
steps with those of other requests and of the jobs between them. Is the command ever issued while a job
function is running?
-/
import Nixbox.Jobs.Exclusive

namespace Nixbox.Slot

/-! ## The system -/

/-- The job's function comes next, once its log is created. -/
def Task.opens : Task → Bool
  | job _ _ .createLog => true
  | _ => false

/-- The actions of the power menu. -/
inductive PowerAction
  | reboot
  | shutdown
  deriving DecidableEq, Repr

/-- A call of `handlePower`: before its check, or past it. -/
structure Powering where
  action : PowerAction
  checked : Bool
  deriving DecidableEq, Repr

/-- A command as it was issued, with the number of job functions that were running. -/
structure Issued where
  action : PowerAction
  running : Nat
  deriving DecidableEq, Repr

/-- The process, the calls of `handlePower` under way in it, and the commands they issued. -/
structure HostProcess where
  dryRun : Bool
  process : Process
  powering : List Powering
  issued : List Issued

/-- The process dies. -/
def Event.isCrash : Event → Bool
  | crash => true
  | _ => false

namespace HostProcess

/-- A process that has done nothing yet. -/
def fresh (dryRun : Bool) (clock : Nat → Store.Time) : HostProcess := ⟨dryRun, .fresh clock, [], []⟩

/-- The number of job functions that are running. -/
def running (p : Process) : Nat := p.tasks.countP Task.inFunction

/-- What happens next: the process goes on, a power request comes, or request number `i` takes a step. -/
inductive Step : Type 1
  | process (e : Event)
  | post (action : PowerAction)
  | power (i : Nat)

variable (h : HostProcess)

/-- The next step of a power request: 409 while a job is running, nothing more in a dry run, and after the command the
answer, whether it failed or not. -/
def powerStep (r : Powering) : HostProcess × List Powering :=
  if r.checked then ({ h with issued := h.issued ++ [⟨r.action, running h.process⟩] }, [])
  else if h.process.isBusy || h.dryRun then (h, [])
  else (h, [{ r with checked := true }])

/-- One step of the process or of a power request. -/
def step : Step → Option HostProcess
  | .process e => (h.process.step e).map fun p => { h with
      process := p
      -- the requests go with the process
      powering := if e.isCrash then [] else h.powering }
  | .post action =>
    if h.process.boot = .up then some { h with powering := h.powering ++ [⟨action, false⟩] } else none
  | .power i =>
    match h.powering[i]? with
    | none => none
    | some r =>
      let (h', rs) := h.powerStep r
      some { h' with powering := h.powering.take i ++ rs ++ h.powering.drop (i + 1) }

/-- The goroutine of a job goes on to the job's function. -/
def begins (p : Process) : Event → Bool
  | .task _ .logFails => false
  | .task i _ => p.tasks[i]?.any Task.opens
  | _ => false

/-- A request is past its check and has not issued its command. -/
def deciding : Bool := h.powering.any (·.checked)

/-- No job's function begins while a power request is deciding. -/
def Undisturbed : Step → Prop
  | .process e => h.deciding = true → begins h.process e = false
  | _ => True

instance : ∀ x, Decidable (h.Undisturbed x)
  | .process e => inferInstanceAs (Decidable (h.deciding = true → begins h.process e = false))
  | .post _ => isTrue trivial
  | .power _ => isTrue trivial

end HostProcess

/-! ## The slot, whatever fails -/

namespace Process

variable {p p' q : Process} {t : Task} {ts : List Task} {a : Act}

/-- A step of a task takes the slot or gives it back as `busy` tells. -/
theorem taskStep_slot (h : p.taskStep a t = some (q, ts)) (hb : t.holds = true → p.busy = true) :
    q.busy.toNat + t.holds.toNat = p.busy.toNat + holders ts := by
  cases ha : a.failing with
  | false => exact (taskStep_stepped ha h).slot hb
  | true =>
    -- a store call that fails keeps the slot
    cases t with
    | start call kind wid next =>
      cases next with
      | swap =>
        dsimp only [taskStep, startStep] at h
        split at h
        · cases h
          simp [note, holders, Task.holds]
        · rename_i hbusy
          cases h
          simp [hbusy, holders, Task.holds]
      | create | read | setLogPath =>
        simp only [taskStep, startStep, ha, if_true, Option.some.injEq, Prod.mk.injEq] at h
        obtain ⟨rfl, rfl⟩ := h
        simp [holders, Task.holds]
      | launch =>
        cases h
        simp [note, holders, Task.holds]
      | giveBack =>
        cases h
        simp [hb rfl, note, holders, Task.holds]
    | job call row stage =>
      cases a with
      | storeFails =>
        cases stage with
        | createLog | finish =>
          cases h
          simp [note, holders, Task.holds]
        | function => cases h
        | release =>
          cases h
          simp [hb rfl, holders, Task.holds]
      | _ => cases ha

theorem startStep_inFunction {call : Nat} {kind : Store.JobKind} {wid : Option Store.ID} {next : Starting} {u : Task}
    (hu : u ∈ (p.startStep call kind wid a next).2) : u.inFunction = false := by
  cases next with
  | swap | setLogPath =>
    dsimp only [startStep] at hu
    split at hu <;> simp at hu <;> subst hu <;> rfl
  | create | read =>
    dsimp only [startStep] at hu
    split at hu <;> rw [List.mem_singleton] at hu <;> subst hu <;> rfl
  | launch =>
    rw [startStep, List.mem_singleton] at hu
    subst hu
    rfl
  | giveBack => cases hu

/-- A task comes to run its function only once its log is created. -/
theorem taskStep_inFunction (h : p.taskStep a t = some (q, ts)) {u : Task} (hu : u ∈ ts) (hfn : u.inFunction = true) :
    t.inFunction = true ∨ t.opens = true ∧
    ∀ i, HostProcess.begins p (.task i a) = p.tasks[i]?.any Task.opens := by
  cases t with
  | start call kind wid next =>
    have hst : p.startStep call kind wid a next = (q, ts) := Option.some.inj h
    have hu' : u ∈ (p.startStep call kind wid a next).2 := by rwa [hst]
    rw [startStep_inFunction hu'] at hfn
    cases hfn
  | job call row stage =>
    cases stage with
    | createLog =>
      refine .inr ⟨rfl, fun i => ?_⟩
      cases a with
      | logFails =>
        cases h
        rw [List.mem_singleton] at hu
        subst hu
        cases hfn
      | _ => rfl
    | function => exact .inl rfl
    | finish r =>
      dsimp only [taskStep, jobStep] at h
      split at h <;> cases h <;> rw [List.mem_singleton] at hu <;> subst hu <;> cases hfn
    | release =>
      cases h
      cases hu

theorem step_slot {e : Event} (h : p.step e = some p') (hs : holders p.tasks = p.busy.toNat) :
    holders p'.tasks = p'.busy.toNat := by
  cases e with
  | recover fails =>
    dsimp only [step, recoverStep] at h
    split at h
    · split at h <;> cases h
      · rfl
      · exact hs
    · cases h
      exact hs
    · split at h <;> cases h
      · rfl
      · exact hs
    · cases h
  | call kind wid =>
    dsimp only [step] at h
    split at h <;> cases h
    rw [holders_append, hs]
    rfl
  | task i a =>
    obtain ⟨pre, t, post, q, ts, hp, hstep, rfl⟩ := stepAt_some h
    have hhold : t.holds = true → p.busy = true := by
      intro ht
      rw [hp, holders_append, holders_cons, ht, Bool.toNat_true] at hs
      cases hb : p.busy with
      | true => rfl
      | false => rw [hb, Bool.toNat_false] at hs; omega
    have hslot := taskStep_slot hstep hhold
    rw [hp, holders_append, holders_cons] at hs
    show holders (pre ++ ts ++ post) = q.busy.toNat
    rw [holders_append, holders_append]
    omega
  | request s =>
    dsimp only [step] at h
    split at h <;> cases h
    exact hs
  | crash =>
    cases h
    rfl

open HostProcess in
theorem running_eq_zero : running p = 0 ↔ ∀ t ∈ p.tasks, t.inFunction = false := by
  unfold running
  rw [List.countP_eq_zero]
  simp only [Bool.not_eq_true]

open HostProcess in
/-- Where no job function runs and none begins, none runs. -/
theorem step_running {e : Event} (h : p.step e = some p') (h0 : running p = 0) (hb : begins p e = false) :
    running p' = 0 := by
  cases e with
  | recover fails =>
    dsimp only [step, recoverStep] at h
    split at h
    · split at h <;> cases h
      · rfl
      · exact h0
    · cases h
      exact h0
    · split at h <;> cases h
      · rfl
      · exact h0
    · cases h
  | call kind wid =>
    dsimp only [step] at h
    split at h <;> cases h
    unfold running
    rw [List.countP_append]
    exact h0
  | task i a =>
    change p.stepAt i a = some p' at h
    unfold stepAt at h
    obtain ⟨t, ht, h⟩ := Option.bind_eq_some_iff.1 h
    obtain ⟨⟨q, ts⟩, hq, h'⟩ := Option.bind_eq_some_iff.1 h
    cases h'
    have hnone := running_eq_zero.1 h0
    refine running_eq_zero.2 fun u hu => ?_
    rcases List.mem_append.1 hu with hu | hu
    · rcases List.mem_append.1 hu with hu | hu
      · exact hnone u (List.mem_of_mem_take hu)
      · -- the task that stepped
        by_contra hfn
        rcases taskStep_inFunction hq hu (Bool.not_eq_false _ ▸ hfn) with hin | ⟨hopens, hbegin⟩
        · rw [hnone t (List.mem_of_getElem? ht)] at hin
          cases hin
        · rw [hbegin i, ht, Option.any_some, hopens] at hb
          cases hb
    · exact hnone u (List.mem_of_mem_drop hu)
  | request s =>
    dsimp only [step] at h
    split at h <;> cases h
    exact h0
  | crash =>
    cases h
    rfl

end Process

/-! ## Every run -/

namespace HostProcess

variable {h h' : HostProcess} {x : Step}

/-- While a request is past its check no job function runs, nor did one at any command. -/
structure Safe (h : HostProcess) : Prop where
  slot : holders h.process.tasks = h.process.busy.toNat
  quiet : h.deciding = true → running h.process = 0
  issued : ∀ i ∈ h.issued, i.running = 0

theorem safe_fresh (dryRun : Bool) (clock : Nat → Store.Time) : (fresh dryRun clock).Safe := ⟨rfl, nofun, nofun⟩

/-- A slot that is free is no job's. -/
theorem Safe.running_of_free (hs : h.Safe) (hfree : h.process.busy = false) : running h.process = 0 := by
  have hle := inFunction_le_holders h.process.tasks
  rw [hs.slot, hfree] at hle
  exact Nat.le_zero.1 hle

theorem Safe.step (hx : h.Undisturbed x) (hs : h.Safe) (hstep : h.step x = some h') : h'.Safe := by
  cases x with
  | process e =>
    obtain ⟨p, hp, rfl⟩ := Option.map_eq_some_iff.1 hstep
    refine ⟨Process.step_slot hp hs.slot, fun hd => ?_, hs.issued⟩
    have hdeciding : h.deciding = true := by
      dsimp only [deciding] at hd
      split at hd
      · cases hd
      · exact hd
    exact Process.step_running hp (hs.quiet hdeciding) (hx hdeciding)
  | post action =>
    dsimp only [HostProcess.step] at hstep
    split at hstep <;> cases hstep
    refine ⟨hs.slot, fun hd => hs.quiet ?_, hs.issued⟩
    simpa [deciding] using hd
  | power i =>
    dsimp only [HostProcess.step] at hstep
    split at hstep
    · cases hstep
    · rename_i r hr
      cases hstep
      have hothers : ∀ {rs : List Powering},
        (h.powering.take i ++ rs ++ h.powering.drop (i + 1)).any (·.checked) = true →
          rs.any (·.checked) = false → running h.process = 0 := by
        intro rs hany hrs
        rw [List.any_append, List.any_append, hrs, Bool.or_false, Bool.or_eq_true] at hany
        refine hs.quiet (List.any_eq_true.2 ?_)
        rcases hany with hany | hany
        · obtain ⟨r, hr, hc⟩ := List.any_eq_true.1 hany
          exact ⟨r, List.mem_of_mem_take hr, hc⟩
        · obtain ⟨r, hr, hc⟩ := List.any_eq_true.1 hany
          exact ⟨r, List.mem_of_mem_drop hr, hc⟩
      unfold powerStep
      split
      · -- the command: the request was past its check until now
        rename_i hchecked
        have hzero : running h.process = 0 := hs.quiet (List.any_eq_true.2 ⟨r, List.mem_of_getElem? hr, hchecked⟩)
        refine ⟨hs.slot, fun _ => hzero, fun j hj => ?_⟩
        rcases List.mem_append.1 hj with hj | hj
        · exact hs.issued j hj
        · rw [List.mem_singleton.1 hj]
          exact hzero
      · split
        · exact ⟨hs.slot, fun hd => hothers hd rfl, hs.issued⟩
        · rename_i hfree
          have hbusy : h.process.busy = false := (Bool.or_eq_false_iff.1 (Bool.eq_false_iff.2 hfree)).1
          exact ⟨hs.slot, fun _ => hs.running_of_free hbusy, hs.issued⟩

/-- Runs in which no job's function begins while a power request is past its check and has not issued its command: no
command is issued while a job function is running. -/
theorem power_safe {dryRun : Bool} {clock : Nat → Store.Time} {xs : List Step}
    (hrun : Runs.exec step (fresh dryRun clock) xs = some h)
    (hquiet : Runs.Along step Undisturbed (fresh dryRun clock) xs) :
    ∀ i ∈ h.issued, i.running = 0 :=
  (Runs.exec_inv (I := Safe) (fun _ _ _ hx hI hst => hI.step hx hst) hquiet (safe_fresh dryRun clock) hrun).issued

/-- The server listens. -/
def listening : List Step := [.process (.recover false), .process (.recover false)]

/-- A call of `Start` up to its job's function. -/
def started : List Step := .process (.call .apply none) :: List.replicate 6 (.process (.task 0 .goes))

/-- A job that runs to its end, and a reboot after it. -/
def inTurn : List Step :=
  listening ++ started ++ [.process (.task 0 (.returns ⟨0, none, false⟩)), .process (.task 0 .goes),
    .process (.task 0 .goes), .post .reboot, .power 0, .power 0]

theorem inTurn_runs : (Runs.exec step (fresh false fun n => n) inTurn).isSome := by decide +kernel

theorem power_safe_inTurn :
    ((Runs.exec step (fresh false fun n => n) inTurn).get inTurn_runs).issued = [⟨.reboot, 0⟩] ∧
    ∀ i ∈ ((Runs.exec step (fresh false fun n => n) inTurn).get inTurn_runs).issued, i.running = 0 :=
  ⟨by decide +kernel, power_safe (Option.some_get inTurn_runs).symm (by decide +kernel)⟩

/-- A job is started between the check of a reboot and its command. -/
def between : List Step := listening ++ [.post .reboot, .power 0] ++ started ++ [.power 0]

theorem between_runs : (Runs.exec step (fresh false fun n => n) between).isSome := by decide +kernel

theorem power_cuts : ¬ ∀ (clock : Nat → Store.Time) (xs : List Step) (h : HostProcess),
    Runs.exec step (fresh false clock) xs = some h → ∀ i ∈ h.issued, i.running = 0 := by
  intro hall
  have hzero := hall (fun n => n) between _ (Option.some_get between_runs).symm ⟨.reboot, 1⟩ (by decide +kernel)
  cases hzero

end HostProcess

end Nixbox.Slot
