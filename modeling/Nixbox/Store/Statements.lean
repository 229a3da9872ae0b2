/-
The statements and transactions that write the database. One that violates a constraint (a UNIQUE
name, a foreign key, the key of a mount) fails and, rolled back, leaves the database as it was.
-/
import Nixbox.Store.Schema

namespace Nixbox.Store

open Keyed

namespace Db

/-! ## Workloads and revisions -/

/-- The transaction of `CreateWorkload`: the row, disabled, and its first revision. -/
def createWorkload (db : Db) (name displayName typ content ports : String) (now : Time) :
    Except Err (ID × Db) :=
  match db.workloadByName name with
  | .ok _ => .error .failed
  | .error _ =>
    let id := db.workloads.nextId
    .ok (id, { db with
      workloads := db.workloads.insert (fun id => ⟨id, name, displayName, typ, false, now, now, none⟩)
        fun _ => rfl
      revisions := db.revisions.insert (fun rid => ⟨rid, id, content, ports, now, "created"⟩)
        fun _ => rfl })

/-- The statement of `SetWorkloadEnabled`. -/
def setWorkloadEnabled (db : Db) (id : ID) (enabled : Bool) (now : Time) : Db :=
  { db with
    workloads := db.workloads.modify id (fun w => { w with enabled := enabled, updatedAt := now })
      fun _ => rfl }

/-- The statement of `SetWorkloadDisplayName`. -/
def setWorkloadDisplayName (db : Db) (id : ID) (displayName : String) (now : Time) : Db :=
  { db with
    workloads := db.workloads.modify id (fun w => { w with displayName := displayName, updatedAt := now })
      fun _ => rfl }

/-- The transaction of `SaveRevision`; the workload must exist. -/
def saveRevision (db : Db) (workloadID : ID) (content ports note : String) (now : Time) :
    Except Err (ID × Db) :=
  match db.workloads.find? workloadID with
  | none => .error .failed
  | some _ => .ok (db.revisions.nextId, { db with
      revisions := db.revisions.insert (fun rid => ⟨rid, workloadID, content, ports, now, note⟩)
        fun _ => rfl
      workloads := db.workloads.modify workloadID (fun w => { w with updatedAt := now }) fun _ => rfl })

/-- Set the applied revision of a workload; it must be a revision row. -/
def markApplied (db : Db) (workloadID revisionID : ID) : Except Err Db :=
  match db.workloads.find? workloadID, db.revisions.find? revisionID with
  | some _, none => .error .failed
  | _, _ => .ok { db with
      workloads := db.workloads.modify workloadID
        (fun w => { w with appliedRevisionID := some revisionID }) fun _ => rfl }

/-- Delete a workload: its revisions and mounts go with it, its jobs stay without it. A revision
that another workload has applied cannot go. -/
def deleteWorkload (db : Db) (id : ID) : Except Err Db :=
  if db.workloads.rows.any fun w => w.id != id &&
      (db.history id).any fun r => w.appliedRevisionID == some r.id then
    .error .failed
  else .ok { db with
    workloads := db.workloads.deleteWhere fun w => w.id == id
    revisions := db.revisions.deleteWhere fun r => r.workloadID == id
    secretMounts := db.secretMounts.filter fun m => m.workloadID != id
    jobs := db.jobs.mapRows (fun j => if j.workloadID = some id then { j with workloadID := none } else j)
      fun j => by split <;> rfl }

/-! ## Jobs -/

/-- Insert a running job; the workload it names must exist. -/
def createJob (db : Db) (kind : JobKind) (workloadID : Option ID) (logPath : String) (now : Time) :
    Except Err (ID × Db) :=
  if workloadID.any fun id => (db.workloads.find? id).isNone then .error .failed
  else .ok (db.jobs.nextId, { db with
    jobs := db.jobs.insert
      (fun id => ⟨id, kind, .running, workloadID, now, none, none, logPath, none⟩) fun _ => rfl })

/-- The statement of `SetJobLogPath`. -/
def setJobLogPath (db : Db) (id : ID) (logPath : String) : Db :=
  { db with jobs := db.jobs.modify id (fun j => { j with logPath := logPath }) fun _ => rfl }

/-- The statement of `FinishJob`. -/
def finishJob (db : Db) (id : ID) (status : JobStatus) (exitCode : Int) (generation : Option Int)
    (now : Time) : Db :=
  { db with
    jobs := db.jobs.modify id (fun j => { j with
      status := status, finishedAt := some now, exitCode := some exitCode, generation := generation })
      fun _ => rfl }

/-! ## Flake inputs -/

/-- The statement of `CreateFlakeInput`: the name is unique. -/
def createFlakeInput (db : Db) (name url : String) (followsNixpkgs : Bool) (now : Time) :
    Except Err (ID × Db) :=
  match db.flakeInputByName name with
  | .ok _ => .error .failed
  | .error _ => .ok (db.flakeInputs.nextId, { db with
      flakeInputs := db.flakeInputs.insert (fun id => ⟨id, name, url, followsNixpkgs, now, now, none⟩)
        fun _ => rfl })

/-- The statement of `UpdateFlakeInput`. -/
def updateFlakeInput (db : Db) (id : ID) (url : String) (followsNixpkgs : Bool) (now : Time) : Db :=
  { db with
    flakeInputs := db.flakeInputs.modify id
      (fun f => { f with url := url, followsNixpkgs := followsNixpkgs, updatedAt := now }) fun _ => rfl }

/-- The statement of `MarkFlakeInputApplied`. -/
def markFlakeInputApplied (db : Db) (id : ID) (now : Time) : Db :=
  { db with
    flakeInputs := db.flakeInputs.modify id (fun f => { f with appliedAt := some now }) fun _ => rfl }

/-- The statement of `DeleteFlakeInput`. -/
def deleteFlakeInput (db : Db) (id : ID) : Db :=
  { db with flakeInputs := db.flakeInputs.deleteWhere fun f => f.id == id }

/-! ## Secrets and mounts -/

/-- `INSERT INTO secret_mounts`: both ends must exist and the pair must be new. -/
def insertMount (db : Db) (secretID workloadID : ID) : Except Err Db :=
  if (db.secrets.find? secretID).isNone || (db.workloads.find? workloadID).isNone
      || db.secretMounts.contains ⟨secretID, workloadID⟩ then .error .failed
  else .ok { db with secretMounts := db.secretMounts ++ [⟨secretID, workloadID⟩] }

/-- `replaceMounts`, inside a transaction. -/
def replaceMounts (db : Db) (secretID : ID) (workloadIDs : List ID) : Except Err Db :=
  workloadIDs.foldlM (fun db wid => db.insertMount secretID wid)
    { db with secretMounts := db.secretMounts.filter fun m => m.secretID != secretID }

/-- The transaction of `CreateSecret`: the row and its mounts. -/
def createSecret (db : Db) (name owner group mode : String) (workloadIDs : List ID) (now : Time) :
    Except Err (ID × Db) :=
  match db.secretRowByName name with
  | .ok _ => .error .failed
  | .error _ =>
    let id := db.secrets.nextId
    match replaceMounts { db with
      secrets := db.secrets.insert (fun id => ⟨id, name, owner, group, mode, now, now, none⟩)
        fun _ => rfl } id workloadIDs with
    | .error e => .error e
    | .ok db' => .ok (id, db')

/-- The transaction of `UpdateSecret`. -/
def updateSecret (db : Db) (id : ID) (owner group mode : String) (workloadIDs : List ID) (now : Time) :
    Except Err Db :=
  replaceMounts { db with
    secrets := db.secrets.modify id
      (fun s => { s with owner := owner, group := group, mode := mode, updatedAt := now })
      fun _ => rfl } id workloadIDs

/-- `INSERT OR IGNORE INTO secret_mounts`, with the number of rows inserted. -/
def insertMountOrIgnore (db : Db) (secretID workloadID : ID) : Except Err (Nat × Db) :=
  if db.secretMounts.contains ⟨secretID, workloadID⟩ then .ok (0, db)
  else match db.insertMount secretID workloadID with
    | .error e => .error e
    | .ok db' => .ok (1, db')

/-- `DELETE FROM secret_mounts` of one mount, with the number of rows deleted. -/
def deleteMount (db : Db) (secretID workloadID : ID) : Nat × Db :=
  (db.secretMounts.count ⟨secretID, workloadID⟩,
    { db with secretMounts := db.secretMounts.filter fun m => m != ⟨secretID, workloadID⟩ })

/-- The statement of `MarkSecretApplied`. -/
def markSecretApplied (db : Db) (id : ID) (now : Time) : Db :=
  { db with secrets := db.secrets.modify id (fun s => { s with appliedAt := some now }) fun _ => rfl }

/-- The statement of `touchSecret`. -/
def touchSecret (db : Db) (id : ID) (now : Time) : Db :=
  { db with secrets := db.secrets.modify id (fun s => { s with updatedAt := now }) fun _ => rfl }

/-- Delete a secret; its mounts go with it. -/
def deleteSecret (db : Db) (id : ID) : Db :=
  { db with
    secrets := db.secrets.deleteWhere fun s => s.id == id
    secretMounts := db.secretMounts.filter fun m => m.secretID != id }

/-! ## What a statement that succeeds has done -/

section Succeeded

variable {db db' : Db} {id a : ID} {now : Time}

/-- No row has a name that is looked up and not found. -/
theorem lookup_error {α : Type} {rows : List α} {nameOf : α → String} {name : String} {r : Except Err α} {e : Err}
    (hfound : ∀ x, rows.find? (fun x => nameOf x == name) = some x → r = .ok x) (h : r = .error e) :
    ∀ x ∈ rows, nameOf x ≠ name := by
  cases hfind : rows.find? fun x => nameOf x == name with
  | some x =>
    rw [hfound x hfind] at h
    cases h
  | none =>
    intro x hx
    simpa using List.find?_eq_none.1 hfind x hx

theorem workloadByName_error {name : String} {e : Err} (h : db.workloadByName name = .error e) :
    ∀ w ∈ db.workloads, w.name ≠ name :=
  lookup_error (fun w hw => by rw [workloadByName, hw]) h

theorem flakeInputByName_error {name : String} {e : Err} (h : db.flakeInputByName name = .error e) :
    ∀ f ∈ db.flakeInputs, f.name ≠ name :=
  lookup_error (fun f hf => by rw [flakeInputByName, hf]) h

theorem secretRowByName_error {name : String} {e : Err} (h : db.secretRowByName name = .error e) :
    ∀ s ∈ db.secrets, s.name ≠ name :=
  lookup_error (fun s hs => by rw [secretRowByName, hs]) h

/-- A statement that answers nothing. -/
theorem unit_ok {x : Except Err Db} {u : Unit} (h : (x.map fun db => ((), db)) = .ok (u, db')) : x = .ok db' := by
  cases x with
  | error e => cases h
  | ok d =>
    cases h
    rfl

theorem createWorkload_ok {name displayName typ content ports : String}
    (h : db.createWorkload name displayName typ content ports now = .ok (a, db')) :
    (∀ w ∈ db.workloads, w.name ≠ name) ∧ a = db.workloads.nextId ∧ db' = { db with
      workloads := db.workloads.insert (fun id => ⟨id, name, displayName, typ, false, now, now, none⟩) fun _ => rfl
      revisions := db.revisions.insert
        (fun rid => ⟨rid, db.workloads.nextId, content, ports, now, "created"⟩) fun _ => rfl } := by
  unfold createWorkload at h
  split at h
  · cases h
  · rename_i hfree
    cases h
    exact ⟨workloadByName_error hfree, rfl, rfl⟩

theorem saveRevision_ok {content ports note : String} (h : db.saveRevision id content ports note now = .ok (a, db')) :
    (∃ w ∈ db.workloads, w.id = id) ∧ a = db.revisions.nextId ∧ db' = { db with
      revisions := db.revisions.insert (fun rid => ⟨rid, id, content, ports, now, note⟩) fun _ => rfl
      workloads := db.workloads.modify id (fun w => { w with updatedAt := now }) fun _ => rfl } := by
  unfold saveRevision at h
  split at h
  · cases h
  · rename_i w hw
    cases h
    exact ⟨⟨w, Table.find?_eq_some.1 hw⟩, rfl, rfl⟩

theorem markApplied_ok {revisionID : ID} (h : db.markApplied id revisionID = .ok db') : db' = { db with
    workloads := db.workloads.modify id (fun w => { w with appliedRevisionID := some revisionID }) fun _ => rfl } := by
  unfold markApplied at h
  split at h
  · cases h
  · cases h
    rfl

theorem deleteWorkload_ok (h : db.deleteWorkload id = .ok db') : db' = { db with
    workloads := db.workloads.deleteWhere fun w => w.id == id
    revisions := db.revisions.deleteWhere fun r => r.workloadID == id
    secretMounts := db.secretMounts.filter fun m => m.workloadID != id
    jobs := db.jobs.mapRows (fun j => if j.workloadID = some id then { j with workloadID := none } else j)
      fun j => by split <;> rfl } := by
  unfold deleteWorkload at h
  split at h
  · cases h
  · cases h
    rfl

theorem createJob_ok {kind : JobKind} {workloadID : Option ID} {logPath : String}
    (h : db.createJob kind workloadID logPath now = .ok (a, db')) :
    (∀ wid, workloadID = some wid → (db.workloads.find? wid).isSome) ∧ a = db.jobs.nextId ∧ db' = { db with
      jobs := db.jobs.insert
        (fun id => ⟨id, kind, .running, workloadID, now, none, none, logPath, none⟩) fun _ => rfl } := by
  unfold createJob at h
  split at h
  · cases h
  · rename_i hthere
    cases h
    refine ⟨?_, rfl, rfl⟩
    rintro wid rfl
    exact Option.isSome_iff_ne_none.2 fun hnone => hthere (by simp [hnone])

theorem createFlakeInput_ok {name url : String} {followsNixpkgs : Bool}
    (h : db.createFlakeInput name url followsNixpkgs now = .ok (a, db')) :
    (∀ f ∈ db.flakeInputs, f.name ≠ name) ∧ a = db.flakeInputs.nextId ∧ db' = { db with
      flakeInputs := db.flakeInputs.insert
        (fun id => ⟨id, name, url, followsNixpkgs, now, now, none⟩) fun _ => rfl } := by
  unfold createFlakeInput at h
  split at h
  · cases h
  · rename_i hfree
    cases h
    exact ⟨flakeInputByName_error hfree, rfl, rfl⟩

theorem createSecret_ok {name owner group mode : String} {workloadIDs : List ID}
    (h : db.createSecret name owner group mode workloadIDs now = .ok (a, db')) :
    (∀ s ∈ db.secrets, s.name ≠ name) ∧ a = db.secrets.nextId ∧ replaceMounts { db with
      secrets := db.secrets.insert (fun id => ⟨id, name, owner, group, mode, now, now, none⟩) fun _ => rfl }
      db.secrets.nextId workloadIDs = .ok db' := by
  unfold createSecret at h
  split at h
  · cases h
  · rename_i hfree
    dsimp only at h
    split at h
    · cases h
    · rename_i hrep
      cases h
      exact ⟨secretRowByName_error hfree, rfl, hrep⟩

end Succeeded

end Db

end Nixbox.Store
