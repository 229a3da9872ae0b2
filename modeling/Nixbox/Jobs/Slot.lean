/-
The job manager statement by statement: any number of calls of `Start` under way at once, the
goroutines they launch, the death of the process and `RecoverStale` in the next one. A job function
is any: it runs statements on the store, none of them on the jobs, and returns what it returns.
-/
import Nixbox.Jobs.Manager
import Nixbox.Lib.Runs
import Nixbox.Store.JobRows

namespace Nixbox.Slot

open Store Jobs

/-! ## Statements of others -/

/-- A statement of a request or of a job function. -/
inductive Statement : Type 1
  | write {α : Type} (w : Write α)
  | markApplied (workloadID revisionID : ID)
  | markFlakeInputApplied (id : ID)
  | markSecretApplied (id : ID)
  | deleteWorkload (id : ID)

/-- One that fails leaves the database as it was. -/
def Statement.run (now : Time) (db : Db) : Statement → Db
  | write w => match w.run now db with
    | .ok (_, db) => db
    | .error _ => db
  | markApplied workloadID revisionID => match db.markApplied workloadID revisionID with
    | .ok db => db
    | .error _ => db
  | markFlakeInputApplied id => db.markFlakeInputApplied id now
  | markSecretApplied id => db.markSecretApplied id now
  | deleteWorkload id => match db.deleteWorkload id with
    | .ok db => db
    | .error _ => db

/-- A statement of `CreateJob` or `SetJobLogPath`, which only the manager runs. -/
def Statement.ofManager : Statement → Bool
  | write w => w.onJobs
  | _ => false

/-! ## What `Start` and the goroutine do next -/

/-- A call of `Start`, by what it does next. -/
inductive Starting
  | swap
  | create
  | read (row : ID)
  | setLogPath (row : ID)
  | launch (row : ID)
  | giveBack (e : Err)
  deriving DecidableEq, Repr

/-- What a job function returned: its `Result`, and whether with an error. -/
structure Returned where
  exitCode : Int
  generation : Option Int
  failed : Bool
  deriving DecidableEq, Repr

/-- The arguments of `FinishJob`. -/
structure Outcome where
  status : JobStatus
  exitCode : Int
  generation : Option Int
  deriving DecidableEq, Repr

/-- What the goroutine records: of what the function returned, or, with none, of a job whose log
could not be created. -/
def outcome : Option Returned → Outcome
  | none => ⟨.failed, -1, none⟩
  | some r =>
    if r.failed then ⟨.failed, if r.exitCode = 0 then -1 else r.exitCode, r.generation⟩
    else if r.exitCode ≠ 0 then ⟨.failed, r.exitCode, r.generation⟩
    else ⟨.ok, r.exitCode, r.generation⟩

/-- The goroutine of a job, by what it does next. -/
inductive Stage
  | createLog
  | function
  | finish (returned : Option Returned)
  | release
  deriving DecidableEq, Repr

/-- A call of `Start`, or the goroutine it launched. -/
inductive Task
  | start (call : Nat) (kind : JobKind) (workloadID : Option ID) (next : Starting)
  | job (call : Nat) (row : ID) (next : Stage)
  deriving DecidableEq, Repr

/-- The call of `Start` that the task belongs to. -/
def Task.call : Task → Nat
  | start call .. => call
  | job call .. => call

/-- The job function of the task is running. -/
def Task.inFunction : Task → Bool
  | job _ _ .function => true
  | _ => false

/-! ## The process -/

/-- How far the process has come: `RecoverStale` first, then the server listens. -/
inductive Boot
  | select
  | finish (rows : List ID)
  | up
  deriving DecidableEq, Repr

/-- What has happened to the calls and jobs, in order. -/
inductive Happened
  | created (call : Nat) (row : ID)
  | answered (call : Nat) (answer : Except StartError ID)
  | ran (call : Nat) (row : ID)
  | returned (row : ID) (r : Returned)
  | recorded (row : ID) (r : Returned)
  | died
  deriving DecidableEq, Repr

/-- The database with the process on it. `calls` numbers the calls of `Start`, `log` is what
happened in this process and those before. -/
structure Process where
  clock : Nat → Time
  ticks : Nat
  db : Db
  boot : Boot
  busy : Bool
  tasks : List Task
  calls : Nat
  log : List Happened

namespace Process

/-- The first process, on an empty database. -/
def fresh (clock : Nat → Time) : Process := ⟨clock, 0, .empty, .select, false, [], 0, []⟩

variable (p : Process)

/-- The clock. -/
def now : Time := p.clock p.ticks

/-- The database after a statement that read the clock. -/
def wrote (db : Db) : Process :=
  { p with
    db := db
    ticks := p.ticks + 1 }

/-- One more thing has happened. -/
def note (h : Happened) : Process := { p with log := p.log ++ [h] }

/-- `Busy`. -/
def isBusy : Bool := p.busy

/-! ## Steps -/

/-- What a step does where it has a choice: whether its store call fails, whether the log file
can be created, and what a running job function does. -/
inductive Act : Type 1
  | goes
  | storeFails
  | logFails
  | runs (q : Statement)
  | returns (r : Returned)

/-- The step is a store call that fails. -/
def Act.failing : Act → Bool
  | storeFails => true
  | _ => false

/-- The next step of a call of `Start`. -/
def startStep (call : Nat) (kind : JobKind) (workloadID : Option ID) (a : Act) :
    Starting → Process × List Task
  | .swap =>
    if p.busy then (p.note (.answered call (.error .busy)), [])
    else ({ p with busy := true }, [.start call kind workloadID .create])
  | .create =>
    match if a.failing then .error .failed else p.db.createJob kind workloadID "" p.now with
    | .error e => (p, [.start call kind workloadID (.giveBack e)])
    | .ok (id, db) => ((p.wrote db).note (.created call id), [.start call kind workloadID (.read id)])
  | .read id =>
    match if a.failing then .error .failed else p.db.jobByID id with
    | .error e => (p, [.start call kind workloadID (.giveBack e)])
    | .ok job => (p, [.start call kind workloadID (.setLogPath job.id)])
  | .setLogPath id =>
    if a.failing then (p, [.start call kind workloadID (.giveBack .failed)])
    else (p.wrote (p.db.setJobLogPath id (jobLog id)), [.start call kind workloadID (.launch id)])
  | .launch id => (p.note (.answered call (.ok id)), [.job call id .createLog])
  | .giveBack e => ({ p with busy := false }.note (.answered call (.error (.store e))), [])

/-- The next step of a job's goroutine. -/
def jobStep (call : Nat) (row : ID) (a : Act) : Stage → Option (Process × List Task)
  | .createLog => match a with
    | .logFails => some (p, [.job call row (.finish none)])
    | _ => some (p.note (.ran call row), [.job call row .function])
  | .function => match a with
    | .runs q => if q.ofManager then none else some (p.wrote (q.run p.now p.db), [.job call row .function])
    | .returns r => some (p.note (.returned row r), [.job call row (.finish (some r))])
    | _ => none
  | .finish returned =>
    if a.failing then some (p, [.job call row .release])
    else
      let o := outcome returned
      let p := p.wrote (p.db.finishJob row o.status o.exitCode o.generation p.now)
      some (returned.elim p fun r => p.note (.recorded row r), [.job call row .release])
  | .release => some ({ p with busy := false }, [])

/-- One step of a task: what it leaves of the process, and of itself. -/
def taskStep (a : Act) : Task → Option (Process × List Task)
  | .start call kind workloadID next => some (p.startStep call kind workloadID a next)
  | .job call row next => p.jobStep call row a next

/-- A step of task number `i`, whose place what it leaves takes. -/
def stepAt (i : Nat) (a : Act) : Option Process := do
  let t ← p.tasks[i]?
  let (p', ts) ← p.taskStep a t
  return { p' with tasks := p.tasks.take i ++ ts ++ p.tasks.drop (i + 1) }

/-- The process is gone; another one starts on the database. -/
def crash : Process :=
  { p.note .died with
    boot := .select
    busy := false
    tasks := [] }

/-- A step of `RecoverStale`; an error of the store ends the process. -/
def recoverStep (fails : Bool) : Option Process :=
  match p.boot with
  | .select =>
    if fails then some p.crash else some { p with boot := .finish (p.db.runningJobs.map (·.id)) }
  | .finish [] => some { p with boot := .up }
  | .finish (id :: rows) =>
    if fails then some p.crash
    else some { p.wrote (p.db.finishJob id .failed (-1) none p.now) with boot := .finish rows }
  | .up => none

end Process

open Process (Act)

/-! ## Runs -/

/-- What happens next. -/
inductive Event : Type 1
  | recover (fails : Bool)
  | call (kind : JobKind) (workloadID : Option ID)
  | task (i : Nat) (a : Act)
  | request (q : Statement)
  | crash

/-- No store call of the manager fails in the event. -/
def Event.faultless : Event → Bool
  | recover fails => !fails
  | task _ a => !a.failing
  | _ => true

/-- The event runs `DeleteWorkload` of `id`. -/
def Event.deletes (id : ID) : Event → Bool
  | task _ (.runs (.deleteWorkload wid)) | request (.deleteWorkload wid) => wid == id
  | _ => false

namespace Process

/-- Calls of `Start` and requests come once the server listens. -/
def step (p : Process) : Event → Option Process
  | .recover fails => p.recoverStep fails
  | .call kind workloadID =>
    if p.boot = .up then
      some { p with
        tasks := p.tasks ++ [.start p.calls kind workloadID .swap]
        calls := p.calls + 1 }
    else none
  | .task i a => p.stepAt i a
  | .request q => if p.boot = .up ∧ q.ofManager = false then some (p.wrote (q.run p.now p.db)) else none
  | .crash => some p.crash

/-- The state after a run. -/
def run (p : Process) (es : List Event) : Option Process := Runs.exec step p es

end Process

end Nixbox.Slot
