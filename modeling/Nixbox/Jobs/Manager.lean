/-
The job manager: claiming the slot and starting a job, and the steps its goroutine takes. The
commands a job runs outside the service answer whatever they answer.
-/
import Nixbox.Nix.StateFlake

namespace Nixbox.Jobs

open Effect Prog Store

/-! ## Starting -/

/-- `ErrBusy`, or an error of the store. -/
inductive StartError
  | busy
  | store (e : Err)
  deriving DecidableEq, Repr

/-- The log of a job, in the logs directory. -/
def jobLog (id : ID) : String := "job-" ++ toString id ++ ".log"

/-- An error once the slot is claimed frees it. -/
def giveBack (e : Err) : ExceptT StartError (Prog Op) Job := do
  ExceptT.lift (perform (.storeBusy false))
  throw (.store e)

/-- `Start` with the slot claimed: the row, its log path, the goroutine. -/
def launch (kind : JobKind) (workloadID : Option ID) (fn : JobFn) : ExceptT StartError (Prog Op) Job := do
  match ← attempt (createJob kind workloadID "") with
  | .error e => giveBack e
  | .ok job =>
    match ← attempt (setJobLogPath job.id (jobLog job.id)) with
    | .error e => giveBack e
    | .ok () =>
      ExceptT.lift (perform (.spawn { row := job.id, fn := fn, phase := .logFile }))
      return { job with logPath := jobLog job.id }

/-- `Manager.Start`: only the call that claims the slot goes on. -/
def start (kind : JobKind) (workloadID : Option ID) (fn : JobFn) : ExceptT StartError (Prog Op) Job := do
  let claimed ← ExceptT.lift (perform .casBusy)
  if claimed then launch kind workloadID fn else throw .busy

/-! ## Running -/

/-- What a step of a job meets outside: the exit code of a command or that it could not run, the
system generation after a rebuild, which entry of a map comes next, and whether a call on the
store or a file fails. -/
structure Input where
  cmd : Except Unit Int
  gen : Option Int
  pick : Nat
  fault : Bool

/-- A step at which everything goes well. -/
def Input.ok : Input := ⟨.ok 0, none, 0, false⟩

/-- What a job function does first. -/
def begin : JobFn → Phase
  | .apply .. => .lock
  | .destroy .. => .stop

/-- The job function returns. -/
def return_ (j : Running) (exitCode : Int) (failed : Bool) : Running :=
  { j with
    result := some ⟨exitCode, failed⟩
    phase := .finish }

/-- The rebuild has returned to the job function. -/
def rebuildReturned (j : Running) (r : Rebuilt) : Running :=
  let j := { j with rebuilt := some r }
  match j.fn with
  | .apply mode applied inputs secrets =>
    if !r.failed && r.code == 0 && mode != .build then { j with phase := .mark applied inputs secrets }
    else return_ j r.code r.failed
  | .destroy .. => if r.failed || r.code != 0 then return_ j r.code r.failed else { j with phase := .deleteRow }

/-- A command of the rebuild: an error or a non-zero exit ends it. -/
def command (j : Running) (cmd : Except Unit Int) (next : Running) : Running :=
  match cmd with
  | .error () => rebuildReturned j ⟨-1, none, true⟩
  | .ok code => if code = 0 then next else rebuildReturned j ⟨code, none, false⟩

/-- `MarkApplied` for one captured workload; the order of the map is the host's. -/
def markWorkload (i : Input) (w : ID × ID) (ws : List (ID × ID)) (s : State) :
    Except Err (State × List (ID × ID)) :=
  let entries := w :: ws
  let k := i.pick % entries.length
  let entry := entries.getD k w
  if i.fault then .error .failed
  else (s.db.markApplied entry.1 entry.2).map fun db => ({ s with db := db }, entries.eraseIdx k)

/-- The next mark, or the end of the marking. -/
def mark (i : Input) (j : Running) (s : State) : List (ID × ID) → List ID → List ID → State × Running
  | w :: ws, inputs, secrets =>
    match markWorkload i w ws s with
    | .ok (s, ws) => (s, { j with phase := .mark ws inputs secrets })
    | .error _ => (s, return_ j 0 true)
  | [], id :: inputs, secrets =>
    if i.fault then (s, return_ j 0 true)
    else ({ s with
      db := s.db.markFlakeInputApplied id (s.host.clock s.ticks)
      ticks := s.ticks + 1 }, { j with phase := .mark [] inputs secrets })
  | [], [], id :: secrets =>
    if i.fault then (s, return_ j 0 true)
    else ({ s with
      db := s.db.markSecretApplied id (s.host.clock s.ticks)
      ticks := s.ticks + 1 }, { j with phase := .mark [] [] secrets })
  | [], [], [] => (s, return_ j 0 false)

/-- `FinishJob` with what the function returned. -/
def finish (j : Running) (s : State) : State :=
  let res := j.result.getD ⟨-1, true⟩
  let status := if res.failed || res.exitCode != 0 then JobStatus.failed else JobStatus.ok
  let exitCode := if res.failed && res.exitCode == 0 then -1 else res.exitCode
  { s with
    db := s.db.finishJob j.row status exitCode (j.rebuilt.bind (·.gen)) (s.host.clock s.ticks)
    ticks := s.ticks + 1 }

/-- The deletions of a destroy job once the system is rebuilt without the workload. -/
def destroy (i : Input) (j : Running) (s : State) (name : String) (id : ID) (type : String)
    (deleteData : Bool) : Phase → State × Running
  | .deleteRow =>
    match if i.fault then .error .failed else s.db.deleteWorkload id with
    | .ok db => ({ s with db := db }, { j with phase := .removeDir })
    | .error _ => (s, return_ j (-1) true)
  | .removeDir =>
    if i.fault then (s, return_ j (-1) true)
    else ({ s with disk.workloads := s.disk.workloads.remove name }, { j with phase := .removeData })
  | _ =>
    if deleteData && (Nix.workloadType type).dataDir name != "" then
      match i.cmd with
      | .error () => (s, return_ j (-1) true)
      | .ok _ => (s, return_ j 0 false)
    else (s, return_ j 0 false)

/-- The goroutine of the job goes on from its phase. -/
def run (i : Input) (j : Running) (s : State) : Option (State × Running) :=
  match j.phase with
  | .logFile => some (s, if i.fault then return_ j (-1) true else { j with phase := begin j.fn })
  | .stop => some (s, { j with phase := .lock })
  | .lock => some (s, command j i.cmd { j with phase := .refresh })
  | .refresh =>
    let j := { j with picked := some s.disk }
    some (s, command j i.cmd { j with phase := .switch })
  | .switch => some (s, command j i.cmd (rebuildReturned j ⟨0, i.gen, false⟩))
  | .mark ws inputs secrets => some (mark i j s ws inputs secrets)
  | .deleteRow | .removeDir | .removeData =>
    match j.fn with
    | .destroy name id type deleteData => some (destroy i j s name id type deleteData j.phase)
    | .apply .. => none
  | .finish => some (if i.fault then s else finish j s, { j with phase := .release })
  | .release => some ({ s with busy := false }, { j with phase := .exited })
  | .exited => none

/-- One step of the job in flight. -/
def step (i : Input) (s : State) : Option State := do
  let j ← s.job
  let (s, j) ← run i j s
  return { s with job := some j }

end Nixbox.Jobs
