/-
The tables of the metadata database and the queries the store runs on them. Row ids are SQLite's:
one more than the largest in the table.
-/
import Nixbox.Lib.Table
import Mathlib.Data.List.Sort

namespace Nixbox.Store

open Keyed

/-- A rowid. -/
abbrev ID := Int

/-- An instant, as the clock reads it. -/
abbrev Time := Int

/-- How a call on the store or a file fails: no such row, or anything else (a violated constraint,
an I/O failure). -/
inductive Err
  | notFound
  | failed
  deriving DecidableEq, Repr

/-- `name` is the load-bearing ID: URL key, directory, container identity. -/
structure Workload where
  id : ID
  name : String
  displayName : String
  type : String
  enabled : Bool
  createdAt : Time
  updatedAt : Time
  appliedRevisionID : Option ID
  deriving DecidableEq, Repr

/-- A row of `workload_revisions`. -/
structure Revision where
  id : ID
  workloadID : ID
  content : String
  ports : String
  createdAt : Time
  note : String
  deriving DecidableEq, Repr

/-- The kinds of jobs. -/
inductive JobKind
  | apply
  | flakeUpdate
  | rollback
  | validate
  deriving DecidableEq, Repr

/-- The states of a job. -/
inductive JobStatus
  | running
  | ok
  | failed
  deriving DecidableEq, Repr

/-- A row of `jobs`. -/
structure Job where
  id : ID
  kind : JobKind
  status : JobStatus
  workloadID : Option ID
  startedAt : Time
  finishedAt : Option Time
  exitCode : Option Int
  logPath : String
  generation : Option Int
  deriving DecidableEq, Repr

/-- A row of `flake_inputs`. -/
structure FlakeInput where
  id : ID
  name : String
  url : String
  followsNixpkgs : Bool
  createdAt : Time
  updatedAt : Time
  appliedAt : Option Time
  deriving DecidableEq, Repr

/-- A row of `secrets`: metadata only, the value is ciphertext on disk. -/
structure SecretRow where
  id : ID
  name : String
  owner : String
  group : String
  mode : String
  createdAt : Time
  updatedAt : Time
  appliedAt : Option Time
  deriving DecidableEq, Repr

/-- A row of `secret_mounts`. -/
structure SecretMount where
  secretID : ID
  workloadID : ID
  deriving DecidableEq, Repr

/-- A secret with the workloads it is mounted into, in id order. -/
structure Secret extends SecretRow where
  workloadIDs : List ID
  deriving DecidableEq, Repr

instance : HasId Workload := ⟨Workload.id⟩
instance : HasId Revision := ⟨Revision.id⟩
instance : HasId Job := ⟨Job.id⟩
instance : HasId FlakeInput := ⟨FlakeInput.id⟩
instance : HasId SecretRow := ⟨SecretRow.id⟩

/-- The badge of an input. -/
inductive InputStatus
  | locked
  | pending
  deriving DecidableEq, Repr

/-- The badge of an input: pending until a rebuild locks its current ref; an edit reopens it. -/
def FlakeInput.status (f : FlakeInput) : InputStatus :=
  match f.appliedAt with
  | some t => if t < f.updatedAt then .pending else .locked
  | none => .pending

/-- The badge of a secret. -/
inductive SecretStatus
  | applied
  | pending
  deriving DecidableEq, Repr

/-- The badge of a secret: pending until a rebuild deploys its current state; an edit reopens it. -/
def SecretRow.status (s : SecretRow) : SecretStatus :=
  match s.appliedAt with
  | some t => if t < s.updatedAt then .pending else .applied
  | none => .pending

/-- The database. -/
@[ext] structure Db where
  workloads : Table Workload
  revisions : Table Revision
  jobs : Table Job
  flakeInputs : Table FlakeInput
  secrets : Table SecretRow
  secretMounts : List SecretMount
  deriving DecidableEq

namespace Db

/-- A database with no rows. -/
def empty : Db := ⟨.empty, .empty, .empty, .empty, .empty, []⟩

/-! ## Queries -/

/-- `SELECT ... FROM workloads ORDER BY name`. -/
def workloadList (db : Db) : List Workload := db.workloads.rows.insertionSort fun a b => a.name ≤ b.name

/-- The workload of an id. -/
def workloadByID (db : Db) (id : ID) : Except Err Workload :=
  match db.workloads.find? id with
  | some w => .ok w
  | none => .error .notFound

/-- The workload of a name. -/
def workloadByName (db : Db) (name : String) : Except Err Workload :=
  match db.workloads.rows.find? fun w => w.name == name with
  | some w => .ok w
  | none => .error .notFound

/-- The revisions of a workload, oldest first. -/
def history (db : Db) (workloadID : ID) : List Revision :=
  db.revisions.rows.filter fun r => r.workloadID == workloadID

/-- `ORDER BY id DESC LIMIT 1`. -/
def latestRevision (db : Db) (workloadID : ID) : Except Err Revision :=
  match (db.history workloadID).getLast? with
  | some r => .ok r
  | none => .error .notFound

/-- `ORDER BY id DESC`. -/
def revisionList (db : Db) (workloadID : ID) : List Revision := (db.history workloadID).reverse

/-- `SELECT ... FROM flake_inputs ORDER BY name`. -/
def flakeInputList (db : Db) : List FlakeInput :=
  db.flakeInputs.rows.insertionSort fun a b => a.name ≤ b.name

/-- The input of a name. -/
def flakeInputByName (db : Db) (name : String) : Except Err FlakeInput :=
  match db.flakeInputs.rows.find? fun f => f.name == name with
  | some f => .ok f
  | none => .error .notFound

/-- `SELECT ... FROM secrets ORDER BY name`. -/
def secretRows (db : Db) : List SecretRow := db.secrets.rows.insertionSort fun a b => a.name ≤ b.name

/-- The secret of an id, without its mounts. -/
def secretRowByID (db : Db) (id : ID) : Except Err SecretRow :=
  match db.secrets.find? id with
  | some s => .ok s
  | none => .error .notFound

/-- The secret of a name, without its mounts. -/
def secretRowByName (db : Db) (name : String) : Except Err SecretRow :=
  match db.secrets.rows.find? fun s => s.name == name with
  | some s => .ok s
  | none => .error .notFound

/-- `SELECT workload_id FROM secret_mounts WHERE secret_id = ? ORDER BY workload_id`. -/
def mountsOf (db : Db) (secretID : ID) : List ID :=
  ((db.secretMounts.filter fun m => m.secretID == secretID).map (·.workloadID)).insertionSort (· ≤ ·)

/-- The job of an id. -/
def jobByID (db : Db) (id : ID) : Except Err Job :=
  match db.jobs.find? id with
  | some j => .ok j
  | none => .error .notFound

/-- The jobs whose status is running. -/
def runningJobs (db : Db) : List Job := db.jobs.rows.filter fun j => j.status == .running

end Db

end Nixbox.Store
