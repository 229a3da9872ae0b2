/-
The service as a system: requests handled one at a time, the steps of the job in flight between
them, and restarts.
-/
import Nixbox.Lib.Runs
import Nixbox.Server.Serve

namespace Nixbox

open Effect Store Nix

/-- What happens next: a request is handled, with the calls that fail; the job in flight takes a
step; or the service is restarted. -/
inductive Event
  | request (r : Server.Request) (faults : List Bool)
  | job (i : Jobs.Input)
  | restart

/-- `StateFlake.Init`: an index.nix or flake.nix that is there stays. -/
def Disk.init (d : Disk) : Disk :=
  { d with
    indexNix := some (d.indexNix.getD (indexDoc [] []))
    flakeNix := some (d.flakeNix.getD (flakeDoc [] false)) }

namespace State

/-- A freshly initialised state directory. -/
def fresh (h : Host) : State :=
  ⟨.empty, Disk.init ⟨none, none, .empty, .empty⟩, false, none, 0, h⟩

/-- One row of `RecoverStale`. -/
def recover (s : State) (j : Job) : State :=
  { s with
    db := s.db.finishJob j.id .failed (-1) none (s.host.clock s.ticks)
    ticks := s.ticks + 1 }

/-- A new process over what the last one left: its goroutines and its job slot are gone. -/
def restart (s : State) : State :=
  let s := { s with
    disk := s.disk.init
    busy := false
    job := none }
  s.db.runningJobs.foldl recover s

/-- The state after handling a request. -/
def handle (s : State) (r : Server.Request) (faults : List Bool) : State :=
  ((Server.serve r).runWith faults s).2

/-- The answer to a request. -/
def answer (s : State) (r : Server.Request) (faults : List Bool) : Server.Response :=
  ((Server.serve r).runWith faults s).1

/-- One step of the service: a request as a whole, a step of the job, or a restart. -/
def step (s : State) : Event → Option State
  | .request r faults => some (s.handle r faults)
  | .job i => Jobs.step i s
  | .restart => some s.restart

/-- The state after a run. -/
def run (s : State) (es : List Event) : Option State := Runs.exec step s es

/-- The states of the runs from a fresh state directory. -/
def Reachable (s : State) : Prop := ∃ h es, (fresh h).run es = some s

theorem reachable_run {h : Host} {es : List Event} (hs : ((fresh h).run es).isSome) :
    (((fresh h).run es).get hs).Reachable :=
  ⟨h, es, (Option.some_get hs).symm⟩

/-- Where the job in the slot stands. -/
def phase (s : State) : Option Phase := s.job.map (·.phase)

/-- Requests are handled one at a time, each when no job is running. -/
def sequential (s : State) : Event → Bool
  | .request .. => !s.inFlight
  | _ => true

end State

/-- No call of the event fails. -/
def Event.faultless : Event → Bool
  | .request _ faults => !faults.contains true
  | .job i => !i.fault
  | .restart => true

/-! ## A host to run examples on -/

/-- The clock counts the readings; encrypting marks the value; every file parses. -/
def exampleHost : Host where
  clock n := n
  encrypt _ plaintext := .ok ("age:" ++ plaintext)
  parse _ := none

/-- `n` steps of a job at which all goes well. -/
def jobSteps (n : Nat) : List Event := List.replicate n (.job .ok)

/-- A request none of whose calls fails. -/
def req (r : Server.Request) : Event := .request r []

/-- A workload is created. -/
def createWeb : Event := req (.workloadCreate ⟨"web", "", "nixos-container", "blank", false⟩)

/-- A secret is created. -/
def createToken : Event := req (.secretCreate "token" ⟨"", "", "", "s3cret", []⟩)

end Nixbox
