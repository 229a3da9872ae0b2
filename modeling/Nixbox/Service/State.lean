/-
The state of the running service and the calls made on it: queries and statements on the
database, reads and writes of the generated state flake, the job slot. A call happens at once; one
that fails answers an error and changes nothing.
-/
import Nixbox.Lib.Program
import Nixbox.Lib.Directory
import Nixbox.Nix.Flakes
import Nixbox.Store.Statements

namespace Nixbox

open Effect Keyed Directory Store Nix

/-! ## The state flake on disk -/

/-- An entry of secrets/: a regular file of ciphertext, or a subdirectory. -/
inductive SecretsEntry
  | file (ciphertext : String)
  | dir
  deriving DecidableEq, Repr

/-- The generated files of the state flake. `workloads` maps a name to the content of
workloads/<name>/workload.nix; the keys of `secrets` are file names. -/
@[ext] structure Disk where
  indexNix : Option IndexDoc
  flakeNix : Option FlakeDoc
  workloads : Dir String
  secrets : Dir SecretsEntry
  deriving DecidableEq

/-! ## Jobs in the background -/

/-- The modes of a rebuild. -/
inductive RebuildMode
  | switch
  | test
  | build
  deriving DecidableEq, Repr

/-- The function a job runs, with the variables its closure captured. -/
inductive JobFn
  | apply (mode : RebuildMode) (applied : List (ID × ID)) (appliedInputs appliedSecrets : List ID)
  | destroy (name : String) (id : ID) (type : String) (deleteData : Bool)
  deriving DecidableEq, Repr

/-- What `Pipeline.Rebuild` returned: exit code, system generation, and whether with an error. -/
structure Rebuilt where
  code : Int
  gen : Option Int
  failed : Bool
  deriving DecidableEq, Repr

/-- What a job function returned: exit code, and whether with an error. -/
structure Result where
  exitCode : Int
  failed : Bool
  deriving DecidableEq, Repr

/-- Where a job stands: the next thing its goroutine does. `mark` carries what is left to mark of
the captured workloads, inputs and secrets. -/
inductive Phase
  | logFile
  | stop
  | lock
  | refresh
  | switch
  | mark (workloads : List (ID × ID)) (inputs secrets : List ID)
  | deleteRow
  | removeDir
  | removeData
  | finish
  | release
  | exited
  deriving DecidableEq, Repr

/-- The goroutine of a job: its row, its function, the state directory its rebuild picked up, what
the rebuild and what the function returned. It stays here when it has exited, until the next job
takes its place. -/
structure Running where
  row : ID
  fn : JobFn
  phase : Phase
  picked : Option Disk := none
  rebuilt : Option Rebuilt := none
  result : Option Result := none
  deriving DecidableEq

/-! ## The service -/

/-- What the service asks of its host: the readings of the clock, encrypting a value to the
configured recipient, and the parser's complaint about a workload file. -/
structure Host where
  clock : Nat → Time
  encrypt : Nat → String → Except Err String
  parse : Option String → Option String

/-- `busy` is the job slot; `ticks` counts the readings taken of the host. -/
structure State where
  db : Db
  disk : Disk
  busy : Bool
  job : Option Running
  ticks : Nat
  host : Host

/-- A job's goroutine is running. -/
def State.inFlight (s : State) : Bool := s.job.any fun j => j.phase != .exited

/-! ## Calls -/

/-- The statements and transactions of a request, by what they answer. -/
inductive Write : Type → Type
  | createWorkload (name displayName typ content ports : String) : Write ID
  | setWorkloadEnabled (id : ID) (enabled : Bool) : Write Unit
  | setWorkloadDisplayName (id : ID) (displayName : String) : Write Unit
  | saveRevision (workloadID : ID) (content ports note : String) : Write ID
  | createJob (kind : JobKind) (workloadID : Option ID) (logPath : String) : Write ID
  | setJobLogPath (id : ID) (logPath : String) : Write Unit
  | createFlakeInput (name url : String) (followsNixpkgs : Bool) : Write ID
  | updateFlakeInput (id : ID) (url : String) (followsNixpkgs : Bool) : Write Unit
  | deleteFlakeInput (id : ID) : Write Unit
  | createSecret (name owner group mode : String) (workloadIDs : List ID) : Write ID
  | updateSecret (id : ID) (owner group mode : String) (workloadIDs : List ID) : Write Unit
  | insertMountOrIgnore (secretID workloadID : ID) : Write Nat
  | deleteMount (secretID workloadID : ID) : Write Nat
  | touchSecret (id : ID) : Write Unit
  | deleteSecret (id : ID) : Write Unit

/-- What a statement does to the database, at a time. -/
def Write.run {α : Type} (w : Write α) (now : Time) (db : Db) : Except Err (α × Db) :=
  match w with
  | createWorkload name displayName typ content ports =>
    db.createWorkload name displayName typ content ports now
  | setWorkloadEnabled id enabled => .ok ((), db.setWorkloadEnabled id enabled now)
  | setWorkloadDisplayName id displayName => .ok ((), db.setWorkloadDisplayName id displayName now)
  | saveRevision workloadID content ports note => db.saveRevision workloadID content ports note now
  | createJob kind workloadID logPath => db.createJob kind workloadID logPath now
  | setJobLogPath id logPath => .ok ((), db.setJobLogPath id logPath)
  | createFlakeInput name url followsNixpkgs => db.createFlakeInput name url followsNixpkgs now
  | updateFlakeInput id url followsNixpkgs => .ok ((), db.updateFlakeInput id url followsNixpkgs now)
  | deleteFlakeInput id => .ok ((), db.deleteFlakeInput id)
  | createSecret name owner group mode workloadIDs =>
    db.createSecret name owner group mode workloadIDs now
  | updateSecret id owner group mode workloadIDs =>
    (db.updateSecret id owner group mode workloadIDs now).map fun db => ((), db)
  | insertMountOrIgnore secretID workloadID => db.insertMountOrIgnore secretID workloadID
  | deleteMount secretID workloadID => .ok (db.deleteMount secretID workloadID)
  | touchSecret id => .ok ((), db.touchSecret id now)
  | deleteSecret id => .ok ((), db.deleteSecret id)

/-- The calls of a request handler. A statement reads the clock once for the rows it stamps. -/
inductive Op : Type → Type 1
  | query {α : Type} (q : Db → Except Err α) : Op (Except Err α)
  | write {α : Type} (w : Write α) : Op (Except Err α)
  | writeIndex (d : IndexDoc) : Op (Except Err Unit)
  | writeFlake (d : FlakeDoc) : Op (Except Err Unit)
  | writeWorkload (name content : String) : Op (Except Err Unit)
  | checkSyntax (name : String) : Op (Option String)
  | encrypt (plaintext : String) : Op (Except Err String)
  | writeSecret (file ciphertext : String) : Op (Except Err Unit)
  | readSecretsDir : Op (Except Err (List (String × SecretsEntry)))
  | removeSecretFile (file : String) : Op (Except Err Unit)
  | casBusy : Op Bool
  | storeBusy (busy : Bool) : Op Unit
  | spawn (job : Running) : Op Unit

namespace State

variable (s : State)

/-- The answer and effect of a statement. -/
def write {α : Type} (w : Write α) : Except Err α × State :=
  match w.run (s.host.clock s.ticks) s.db with
  | .ok (a, db) => (.ok a, { s with db := db, ticks := s.ticks + 1 })
  | .error e => (.error e, { s with ticks := s.ticks + 1 })

/-- A file renamed into secrets/ does not replace a directory. -/
def writeSecret (file ciphertext : String) : Except Err Unit × State :=
  match s.disk.secrets.get? file with
  | some .dir => (.error .failed, s)
  | _ => (.ok (), { s with disk.secrets := s.disk.secrets.put file (.file ciphertext) })

/-- The answer and effect of a call. -/
def exec {β : Type} : Op β → β × State
  | .query q => (q s.db, s)
  | .write w => s.write w
  | .writeIndex d => (.ok (), { s with disk.indexNix := some d })
  | .writeFlake d => (.ok (), { s with disk.flakeNix := some d })
  | .writeWorkload name content =>
    (.ok (), { s with disk.workloads := s.disk.workloads.put name content })
  | .checkSyntax name => (s.host.parse (s.disk.workloads.get? name), s)
  | .encrypt plaintext => (s.host.encrypt s.ticks plaintext, { s with ticks := s.ticks + 1 })
  | .writeSecret file ciphertext => s.writeSecret file ciphertext
  | .readSecretsDir => (.ok s.disk.secrets.entries, s)
  | .removeSecretFile file => (.ok (), { s with disk.secrets := s.disk.secrets.remove file })
  | .casBusy => (!s.busy, { s with busy := true })
  | .storeBusy busy => ((), { s with busy := busy })
  | .spawn job => ((), { s with job := some job })

end State

/-- The answer of a call that fails; the job slot and the parser always answer. -/
def Op.fault {β : Type} : Op β → Option β
  | query _ | write _ | writeIndex _ | writeFlake _ | writeWorkload _ _ | encrypt _ | writeSecret _ _
  | readSecretsDir | removeSecretFile _ => some (.error .failed)
  | checkSyntax _ | casBusy | storeBusy _ | spawn _ => none

instance : Calls Op State := ⟨fun op s => s.exec op, Op.fault⟩

end Nixbox
