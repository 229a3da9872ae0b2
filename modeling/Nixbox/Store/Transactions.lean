/-
The methods of the store as programs over single SQL statements, and what each of them may commit.
-/
import Nixbox.Lib.Transaction
import Nixbox.Store.Invariant

namespace Nixbox.Store

open Keyed Table

instance : Sql.Faulty Err := ⟨.failed⟩

/-! ## The statements of the transactions -/

namespace Db

theorem rowid_newWorkload (name displayName typ : String) (now : Time) :
    ∀ id, rowid (⟨id, name, displayName, typ, false, now, now, none⟩ : Workload) = id := fun _ => rfl

theorem rowid_newSecret (name owner group mode : String) (now : Time) :
    ∀ id, rowid (⟨id, name, owner, group, mode, now, now, none⟩ : SecretRow) = id := fun _ => rfl

theorem rowid_editedSecret (owner group mode : String) (now : Time) : ∀ s : SecretRow,
    rowid { s with owner := owner, group := group, mode := mode, updatedAt := now } = rowid s := fun _ => rfl

/-- `INSERT INTO workloads`. -/
def insertWorkload (db : Db) (name displayName typ : String) (now : Time) : Except Err (ID × Db) :=
  match db.workloadByName name with
  | .ok _ => .error .failed
  | .error _ => .ok (db.workloads.nextId, { db with
      workloads := db.workloads.insert (fun id => ⟨id, name, displayName, typ, false, now, now, none⟩)
        (rowid_newWorkload name displayName typ now) })

/-- `INSERT INTO revisions`; the workload must exist. -/
def insertRevision (db : Db) (workloadID : ID) (content ports : String) (now : Time) (note : String) :
    Except Err (ID × Db) :=
  match db.workloads.find? workloadID with
  | none => .error .failed
  | some _ => .ok (db.revisions.nextId, { db with
      revisions := db.revisions.insert (fun rid => ⟨rid, workloadID, content, ports, now, note⟩) fun _ => rfl })

/-- `INSERT INTO secrets`. -/
def insertSecret (db : Db) (name owner group mode : String) (now : Time) : Except Err (ID × Db) :=
  match db.secretRowByName name with
  | .ok _ => .error .failed
  | .error _ => .ok (db.secrets.nextId, { db with
      secrets := db.secrets.insert (fun id => ⟨id, name, owner, group, mode, now, now, none⟩)
        (rowid_newSecret name owner group mode now) })

/-- `UPDATE secrets SET owner, group_name, mode, updated_at`. -/
def updateSecretRow (db : Db) (id : ID) (owner group mode : String) (now : Time) : Db :=
  { db with
    secrets := db.secrets.modify id
      (fun s => { s with owner := owner, group := group, mode := mode, updatedAt := now })
      (rowid_editedSecret owner group mode now) }

/-- `DELETE FROM secret_mounts WHERE secret_id = ?`. -/
def deleteMountsOf (db : Db) (secretID : ID) : Db :=
  { db with secretMounts := db.secretMounts.filter fun m => m.secretID != secretID }

end Db

/-! ## The methods -/

namespace Method

open Effect Prog Sql

/-- A method of the store. -/
abbrev Call (α : Type) : Type 1 := Sql.Call Db Err α

/-- A statement that answers something. -/
def insert (f : Db → Except Err (α × Db)) : Call α := Sql.call (.exec f)

/-- A statement that only fails for no reason of the data. -/
def update (f : Db → Db) : Call Unit := Sql.call (.exec fun db => .ok ((), f db))

/-- A statement that may violate a constraint. -/
def change (f : Db → Except Err Db) : Call Unit := Sql.call (.exec fun db => (f db).map fun db => ((), db))

/-- `CreateWorkload`: the row and its first revision in one transaction. -/
def createWorkload (name displayName typ content ports : String) (now : Time) : Call Workload := do
  let id ← transaction do
    let id ← insert fun db => db.insertWorkload name displayName typ now
    let _ ← insert fun db => db.insertRevision id content ports now "created"
    return id
  Sql.call (.query fun db => db.workloadByID id)

/-- `SaveRevision`: the revision and the touch of its workload in one transaction. -/
def saveRevision (workloadID : ID) (content ports note : String) (now : Time) : Call ID :=
  transaction do
    let revID ← insert fun db => db.insertRevision workloadID content ports now note
    update fun db => db.touchWorkload workloadID now
    return revID

/-- `replaceMounts`: the mounts are deleted and inserted again. -/
def replaceMounts (secretID : ID) (workloadIDs : List ID) : Call Unit := do
  update fun db => db.deleteMountsOf secretID
  let _ ← forEach (fun wid => change fun db => db.insertMount secretID wid) workloadIDs

/-- The row and its mounts. -/
def secretByID (id : ID) : Call Secret := do
  let row ← Sql.call (.query fun db => db.secretRowByID id)
  let workloadIDs ← Sql.call (.query fun db => .ok (db.mountsOf row.id))
  return { row with workloadIDs := workloadIDs }

/-- `CreateSecret`: the row and its mounts in one transaction. -/
def createSecret (name owner group mode : String) (workloadIDs : List ID) (now : Time) : Call Secret := do
  let id ← transaction do
    let id ← insert fun db => db.insertSecret name owner group mode now
    replaceMounts id workloadIDs
    return id
  secretByID id

/-- `UpdateSecret`: the row and its mounts in one transaction. -/
def updateSecret (id : ID) (owner group mode : String) (workloadIDs : List ID) (now : Time) : Call Unit :=
  transaction do
    update fun db => db.updateSecretRow id owner group mode now
    replaceMounts id workloadIDs

/-- The secret is touched if the statement changed a row. -/
def touchOnChange (n : Nat) (secretID : ID) (now : Time) : Call Unit :=
  if n = 0 then pure () else update fun db => db.touchSecret secretID now

/-- `AddSecretMount`. -/
def addSecretMount (secretID workloadID : ID) (now : Time) : Call Unit := do
  let n ← insert fun db => db.insertMountOrIgnore secretID workloadID
  touchOnChange n secretID now

/-- `RemoveSecretMount`. -/
def removeSecretMount (secretID workloadID : ID) (now : Time) : Call Unit := do
  let n ← insert fun db => .ok (db.deleteMount secretID workloadID)
  touchOnChange n secretID now

/-- `CreateJob`. -/
def createJob (kind : JobKind) (workloadID : Option ID) (logPath : String) (now : Time) : Call Job := do
  let id ← insert fun db => db.createJob kind workloadID logPath now
  Sql.call (.query fun db => db.jobByID id)

end Method

/-- The methods that write workloads, revisions, secrets and jobs. -/
inductive Operation
  | createWorkload (name displayName typ content ports : String)
  | setWorkloadEnabled (id : ID) (enabled : Bool)
  | setWorkloadDisplayName (id : ID) (displayName : String)
  | deleteWorkload (id : ID)
  | saveRevision (workloadID : ID) (content ports note : String)
  | markApplied (workloadID revisionID : ID)
  | createJob (kind : JobKind) (workloadID : Option ID) (logPath : String)
  | setJobLogPath (id : ID) (logPath : String)
  | finishJob (id : ID) (status : JobStatus) (exitCode : Int) (generation : Option Int)
  | createSecret (name owner group mode : String) (workloadIDs : List ID)
  | updateSecret (id : ID) (owner group mode : String) (workloadIDs : List ID)
  | addSecretMount (secretID workloadID : ID)
  | removeSecretMount (secretID workloadID : ID)
  | markSecretApplied (id : ID)
  | touchSecret (id : ID)
  | deleteSecret (id : ID)
  deriving DecidableEq, Repr

open Effect Prog Sql Method in
/-- The program of a method that reads the clock as `now`; what it returns does not matter here. -/
def Operation.program (op : Operation) (now : Time) : Method.Call Unit :=
  match op with
  | createWorkload name displayName typ content ports => do
    let _ ← Method.createWorkload name displayName typ content ports now
  | setWorkloadEnabled id enabled => update fun db => db.setWorkloadEnabled id enabled now
  | setWorkloadDisplayName id displayName => update fun db => db.setWorkloadDisplayName id displayName now
  | deleteWorkload id => change fun db => db.deleteWorkload id
  | saveRevision workloadID content ports note => do
    let _ ← Method.saveRevision workloadID content ports note now
  | markApplied workloadID revisionID => change fun db => db.markApplied workloadID revisionID
  | createJob kind workloadID logPath => do
    let _ ← Method.createJob kind workloadID logPath now
  | setJobLogPath id logPath => update fun db => db.setJobLogPath id logPath
  | finishJob id status exitCode generation => update fun db => db.finishJob id status exitCode generation now
  | createSecret name owner group mode workloadIDs => do
    let _ ← Method.createSecret name owner group mode workloadIDs now
  | updateSecret id owner group mode workloadIDs => Method.updateSecret id owner group mode workloadIDs now
  | addSecretMount secretID workloadID => Method.addSecretMount secretID workloadID now
  | removeSecretMount secretID workloadID => Method.removeSecretMount secretID workloadID now
  | markSecretApplied id => update fun db => db.markSecretApplied id now
  | touchSecret id => update fun db => db.touchSecret id now
  | deleteSecret id => update fun db => db.deleteSecret id

/-- A call of the store: the clock it reads and the statements of it that fail. -/
structure Attempt where
  op : Operation
  now : Time
  faults : List Bool

/-- The connection after the call. -/
def Attempt.conn (a : Attempt) (db : Db) : Sql.Conn Db :=
  ((a.op.program a.now).run.runWith a.faults (.open_ db)).2

/-- What the call answers, its result aside. -/
def Attempt.answer (a : Attempt) (db : Db) : Except Err Unit :=
  ((a.op.program a.now).run.runWith a.faults (.open_ db)).1

/-- What the attempt leaves in the file. -/
def Attempt.after (db : Db) (a : Attempt) : Db := (a.conn db).committed

/-- The call committed something, whatever it returned. -/
def Attempt.commits (a : Attempt) (db : Db) : Bool := (a.conn db).commits != 0

/-! ## What the transactions mean -/

section Meanings

open Effect Prog Sql Method

variable {db db' : Db} {now : Time}

theorem insertWorkload_insertRevision {name displayName typ content ports : String} {id rid : ID} {d : Db}
    (h : db.insertWorkload name displayName typ now = .ok (id, d))
    (h' : d.insertRevision id content ports now "created" = .ok (rid, db')) :
    db.createWorkload name displayName typ content ports now = .ok (id, db') := by
  unfold Db.insertWorkload at h
  split at h
  · cases h
  · rename_i hfree
    cases h
    unfold Db.insertRevision at h'
    split at h'
    · cases h'
    · cases h'
      unfold Db.createWorkload
      rw [hfree]

theorem insertRevision_touch {id rid : ID} {content ports note : String} {d : Db}
    (h : db.insertRevision id content ports now note = .ok (rid, d)) :
    db.saveRevision id content ports note now = .ok (rid, d.touchWorkload id now) := by
  unfold Db.insertRevision at h
  split at h
  · cases h
  · rename_i hw
    cases h
    unfold Db.saveRevision
    rw [hw]
    rfl

theorem createWorkload_means {name displayName typ content ports : String} :
    Means (ε := Err) (do
      let id ← insert fun db => db.insertWorkload name displayName typ now
      let _ ← insert fun db => db.insertRevision id content ports now "created"
      return id) fun db => db.createWorkload name displayName typ content ports now := by
  refine ((means_exec _).bind fun id => (means_exec _).bind fun _ => means_pure id).mono fun d a d' h => ?_
  obtain ⟨id, d₁, h₁, h⟩ := stateT_bind_ok h
  obtain ⟨rid, d₂, h₂, h⟩ := stateT_bind_ok h
  cases h
  exact insertWorkload_insertRevision h₁ h₂

theorem saveRevision_means {workloadID : ID} {content ports note : String} :
    Means (ε := Err) (do
      let revID ← insert fun db => db.insertRevision workloadID content ports now note
      update fun db => db.touchWorkload workloadID now
      return revID) fun db => db.saveRevision workloadID content ports note now := by
  refine ((means_exec _).bind fun id => (means_exec _).bind fun _ => means_pure id).mono fun d a d' h => ?_
  obtain ⟨rid, d₁, h₁, h⟩ := stateT_bind_ok h
  obtain ⟨_, d₂, h₂, h⟩ := stateT_bind_ok h
  cases h
  cases h₂
  exact insertRevision_touch h₁

theorem replaceMounts_means {secretID : ID} {workloadIDs : List ID} :
    Means (ε := Err) (Method.replaceMounts secretID workloadIDs)
      fun db => (db.replaceMounts secretID workloadIDs).map fun db => ((), db) := by
  refine ((means_exec _).bind fun _ => means_forEach (fun wid => means_exec _) workloadIDs).mono fun d u d' h => ?_
  obtain ⟨_, d₁, h₁, h₂⟩ := stateT_bind_ok h
  cases h₁
  exact h₂

theorem createSecret_means {name owner group mode : String} {workloadIDs : List ID} :
    Means (ε := Err) (do
      let id ← insert fun db => db.insertSecret name owner group mode now
      Method.replaceMounts id workloadIDs
      return id) fun db => db.createSecret name owner group mode workloadIDs now := by
  refine ((means_exec _).bind fun id => replaceMounts_means.bind fun _ => means_pure id).mono fun d a d' h => ?_
  obtain ⟨id, d₁, h₁, h⟩ := stateT_bind_ok h
  obtain ⟨_, d₂, h₂, h⟩ := stateT_bind_ok h
  cases h
  change d.insertSecret name owner group mode now = _ at h₁
  change (d₁.replaceMounts a workloadIDs).map _ = _ at h₂
  show d.createSecret name owner group mode workloadIDs now = _
  unfold Db.insertSecret at h₁
  split at h₁
  · cases h₁
  · rename_i hfree
    cases h₁
    unfold Db.createSecret
    rw [hfree]
    dsimp only
    split
    · rename_i hrep
      rw [hrep] at h₂
      cases h₂
    · rename_i hrep
      rw [hrep] at h₂
      cases h₂
      rfl

theorem updateSecret_means {id : ID} {owner group mode : String} {workloadIDs : List ID} :
    Means (ε := Err) (do
      update fun db => db.updateSecretRow id owner group mode now
      Method.replaceMounts id workloadIDs)
      fun db => (db.updateSecret id owner group mode workloadIDs now).map fun db => ((), db) := by
  refine ((means_exec _).bind fun _ => replaceMounts_means).mono fun d u d' h => ?_
  obtain ⟨_, d₁, h₁, h₂⟩ := stateT_bind_ok h
  cases h₁
  exact h₂

/-! ## What the methods commit -/

variable {c : Conn Db}

theorem update_committed (f : Db → Db) (hc : c.tx = none) :
    Ends (fun _ c' => Committed (ε := Err) (fun db => .ok ((), f db)) c c') (update f).run c :=
  (exec_allOrNothing _ hc).mono fun _ _ h => h.committed

theorem change_committed (f : Db → Except Err Db) (hc : c.tx = none) :
    Ends (fun _ c' => Committed (fun db => (f db).map fun db => ((), db)) c c') (change f).run c :=
  (exec_allOrNothing _ hc).mono fun _ _ h => h.committed

theorem createWorkload_committed {name displayName typ content ports : String} (hc : c.tx = none) :
    Ends (fun _ c' => Committed (fun db => db.createWorkload name displayName typ content ports now) c c')
      ((Operation.createWorkload name displayName typ content ports).program now).run c := by
  unfold Operation.program Method.createWorkload
  dsimp only
  rw [bind_assoc]
  exact committed_then (transaction_allOrNothing createWorkload_means hc) fun id =>
    (asks_query _).bind fun _ => asks_pure ()

theorem saveRevision_committed {workloadID : ID} {content ports note : String} (hc : c.tx = none) :
    Ends (fun _ c' => Committed (fun db => db.saveRevision workloadID content ports note now) c c')
      ((Operation.saveRevision workloadID content ports note).program now).run c :=
  committed_then (transaction_allOrNothing saveRevision_means hc) fun _ => asks_pure ()

end Meanings

/-! ## The other methods -/

/-- No revision and no workload is added or removed. -/
structure Unrevised (db db' : Db) : Prop where
  revisions : db'.revisions = db.revisions
  ids : ∀ id, (∃ w ∈ db'.workloads, w.id = id) ↔ ∃ w ∈ db.workloads, w.id = id

/-- The method is none of those that write revisions. -/
def Operation.sparesRevisions : Operation → Bool
  | createWorkload .. | saveRevision .. | deleteWorkload _ => false
  | _ => true

section Others

open Effect Prog Sql Method

variable {db db' d : Db} {now : Time}

theorem Unrevised.trans (h : Unrevised db db') (h' : Unrevised db' d) : Unrevised db d :=
  ⟨h'.revisions.trans h.revisions, fun id => (h'.ids id).trans (h.ids id)⟩

theorem unrevised_of_eq (hw : db'.workloads = db.workloads) (hr : db'.revisions = db.revisions) : Unrevised db db' :=
  ⟨hr, fun id => by rw [hw]⟩

theorem unrevised_modify {id : ID} {f : Workload → Workload} (hf : ∀ w, rowid (f w) = rowid w) :
    Unrevised db { db with workloads := db.workloads.modify id f hf } := by
  refine ⟨rfl, fun i => ⟨?_, ?_⟩⟩
  · rintro ⟨w, hw, rfl⟩
    obtain ⟨x, hx, hid, -⟩ := Db.mem_modify_id hf hw
    exact ⟨x, hx, hid⟩
  · rintro ⟨w, hw, rfl⟩
    exact Db.exists_modify_id hf hw

theorem markApplied_unrevised {wid rid : ID} (h : db.markApplied wid rid = .ok db') : Unrevised db db' := by
  obtain rfl := Db.markApplied_ok h
  exact unrevised_modify _

theorem createJob_unrevised {kind : JobKind} {wid : Option ID} {log : String} {a : ID}
    (h : db.createJob kind wid log now = .ok (a, db')) : Unrevised db db' := by
  obtain ⟨jobs, rfl⟩ := Db.createJob_frame h
  exact unrevised_of_eq rfl rfl

theorem createSecret_unrevised {name owner group mode : String} {wids : List ID} {a : ID}
    (h : db.createSecret name owner group mode wids now = .ok (a, db')) : Unrevised db db' := by
  obtain ⟨-, rfl, hrep⟩ := Db.createSecret_ok h
  obtain ⟨m, rfl⟩ := Db.replaceMounts_frame hrep
  exact unrevised_of_eq rfl rfl

theorem updateSecret_unrevised {id : ID} {owner group mode : String} {wids : List ID}
    (h : db.updateSecret id owner group mode wids now = .ok db') : Unrevised db db' := by
  obtain ⟨m, rfl⟩ := Db.replaceMounts_frame h
  exact unrevised_of_eq rfl rfl

/-- The connection is idle again and the database like before, as far as revisions go. -/
def Settled (c c' : Conn Db) : Prop := c'.tx = none ∧ Unrevised c.committed c'.committed

variable {c c' : Conn Db}

theorem settled_refl (hc : c.tx = none) : Settled c c := ⟨hc, unrevised_of_eq rfl rfl⟩

theorem settled_of_committed {α : Type} {m : StateT Db (Except Err) α} (hc : c.tx = none)
    (hm : ∀ d a d', m.run d = .ok (a, d') → Unrevised d d') (h : Committed m c c') : Settled c c' := by
  rcases h with rfl | ⟨a, d, hd, rfl⟩
  · exact settled_refl hc
  · exact ⟨rfl, hm _ _ _ hd⟩

theorem update_settled {f : Db → Db} (hf : ∀ d, Unrevised d (f d)) (hc : c.tx = none) :
    Ends (fun _ => Settled c) (update f).run c :=
  (update_committed f hc).mono fun _ _ h => settled_of_committed hc (fun d _ _ hd => by cases hd; exact hf d) h

theorem change_settled {f : Db → Except Err Db} (hf : ∀ d d', f d = .ok d' → Unrevised d d') (hc : c.tx = none) :
    Ends (fun _ => Settled c) (change f).run c :=
  (change_committed f hc).mono fun _ _ h => settled_of_committed hc (fun d _ d' hd => hf d d' (Db.unit_ok hd)) h

/-- A statement on the mounts and, if it changed one, the timestamp of the secret. -/
theorem mount_settled {f : Db → Except Err (Nat × Db)} {secretID : ID}
    (hf : ∀ d n d', f d = .ok (n, d') → Unrevised d d') (hc : c.tx = none) : Ends (fun _ => Settled c)
      (do let n ← insert f; Method.touchOnChange n secretID now : Method.Call Unit).run c := by
  refine ends_exceptT_bind.2 ((exec_allOrNothing f hc).mono fun r c' hr => ?_)
  have hfirst : Settled c c' := settled_of_committed hc hf hr.committed
  cases r with
  | error e => exact hfirst
  | ok n =>
    dsimp only
    unfold Method.touchOnChange
    split
    · exact ends_return.2 hfirst
    · have htouch : ∀ d : Db, Unrevised d (d.touchSecret secretID now) := fun d => unrevised_of_eq rfl rfl
      exact (update_settled htouch hfirst.1).mono fun _ c'' h => ⟨h.1, hfirst.2.trans h.2⟩

theorem Operation.program_settled {op : Operation} (h : op.sparesRevisions = true) (hc : c.tx = none) :
    Ends (fun _ => Settled c) (op.program now).run c := by
  have hsame : ∀ {f : Db → Db}, (∀ d, (f d).workloads = d.workloads) →
    (∀ d, (f d).revisions = d.revisions) →
      Ends (fun _ => Settled c) (update f).run c := fun hw hr =>
    update_settled (fun d => unrevised_of_eq (hw d) (hr d)) hc
  cases op with
  | createWorkload | saveRevision | deleteWorkload => exact nomatch h
  | setWorkloadEnabled | setWorkloadDisplayName =>
    refine update_settled (fun d => unrevised_modify ?_) hc
    exact fun _ => rfl
  | markApplied => exact change_settled (fun d d' => markApplied_unrevised) hc
  | createJob kind wid log =>
    unfold Operation.program Method.createJob
    dsimp only
    -- the read-back that follows the insert changes nothing
    rw [bind_assoc]
    refine (committed_then (exec_allOrNothing _ hc) fun id => (asks_query _).bind fun _ => asks_pure ()).mono ?_
    exact fun _ _ h => settled_of_committed hc (fun d a d' => createJob_unrevised) h
  | createSecret name owner group mode wids =>
    unfold Operation.program Method.createSecret
    dsimp only
    rw [bind_assoc]
    refine (committed_then (transaction_allOrNothing createSecret_means hc) fun id =>
      ((asks_query _).bind fun _ => (asks_query _).bind fun _ => asks_pure _).bind fun _ => asks_pure ()).mono ?_
    exact fun _ _ h => settled_of_committed hc (fun d a d' => createSecret_unrevised) h
  | updateSecret id owner group mode wids =>
    refine (transaction_allOrNothing updateSecret_means hc).mono fun _ _ h => ?_
    exact settled_of_committed hc (fun d a d' hd => updateSecret_unrevised (Db.unit_ok hd)) h.committed
  | addSecretMount secretID workloadID =>
    refine mount_settled (fun d n d' hd => ?_) hc
    obtain ⟨m, rfl⟩ := Db.insertMountOrIgnore_frame hd
    exact unrevised_of_eq rfl rfl
  | removeSecretMount secretID workloadID =>
    refine mount_settled (fun d n d' hd => ?_) hc
    cases hd
    exact unrevised_of_eq rfl rfl
  | setJobLogPath | finishJob | markSecretApplied | touchSecret | deleteSecret =>
    exact hsame (fun _ => rfl) fun _ => rfl

/-! ## Answers -/

theorem update_okCommits (f : Db → Db) (hc : c.tx = none) : Ends (OkCommits c) (update f).run c :=
  (exec_allOrNothing _ hc).mono fun _ _ h => h.okCommits

theorem change_okCommits (f : Db → Except Err Db) (hc : c.tx = none) : Ends (OkCommits c) (change f).run c :=
  (exec_allOrNothing _ hc).mono fun _ _ h => h.okCommits

/-- The touch that may follow commits once more, or does nothing. -/
theorem mount_okCommits {f : Db → Except Err (Nat × Db)} {secretID : ID} (hc : c.tx = none) :
    Ends (OkCommits c) (do let n ← insert f; Method.touchOnChange n secretID now : Method.Call Unit).run c := by
  refine ends_exceptT_bind.2 ((exec_allOrNothing f hc).mono fun r c' hr => ?_)
  have hfirst := hr.okCommits
  rcases hr with ⟨rfl, e, rfl⟩ | ⟨n, d, -, rfl, rfl⟩
  · exact ⟨hfirst.1, nofun⟩
  · dsimp only
    unfold Method.touchOnChange
    split
    · exact ends_return.2 ⟨hfirst.1, fun _ _ => hfirst.2 n rfl⟩
    · refine (update_okCommits _ rfl).mono fun _ c'' h => ?_
      have hlt := lt_of_lt_of_le (hfirst.2 n rfl) h.1
      exact ⟨hlt.le, fun _ _ => hlt⟩

theorem Operation.program_okCommits (op : Operation) (hc : c.tx = none) :
    Ends (OkCommits c) (op.program now).run c := by
  cases op with
  | setWorkloadEnabled | setWorkloadDisplayName | setJobLogPath | finishJob | markSecretApplied | touchSecret
  | deleteSecret => exact update_okCommits _ hc
  | deleteWorkload | markApplied => exact change_okCommits _ hc
  | addSecretMount | removeSecretMount => exact mount_okCommits hc
  | updateSecret => exact (transaction_allOrNothing updateSecret_means hc).mono fun _ _ h => h.okCommits
  | saveRevision =>
    exact okCommits_then ((transaction_allOrNothing saveRevision_means hc).mono fun _ _ h => h.okCommits)
      fun _ => asks_pure ()
  | createWorkload =>
    unfold Operation.program Method.createWorkload
    dsimp only
    rw [bind_assoc]
    exact okCommits_then ((transaction_allOrNothing createWorkload_means hc).mono fun _ _ h => h.okCommits)
      fun id => (asks_query _).bind fun _ => asks_pure ()
  | createJob =>
    unfold Operation.program Method.createJob
    dsimp only
    rw [bind_assoc]
    exact okCommits_then ((exec_allOrNothing _ hc).mono fun _ _ h => h.okCommits)
      fun id => (asks_query _).bind fun _ => asks_pure ()
  | createSecret =>
    unfold Operation.program Method.createSecret
    dsimp only
    rw [bind_assoc]
    exact okCommits_then ((transaction_allOrNothing createSecret_means hc).mono fun _ _ h => h.okCommits)
      fun id => ((asks_query _).bind fun _ => (asks_query _).bind fun _ => asks_pure _).bind fun _ => asks_pure ()

/-- A method that answers without an error has committed. -/
theorem Attempt.commits_of_ok {a : Attempt} {db : Db} (h : a.answer db = .ok ()) : a.commits db = true := by
  have hall : Ends (OkCommits (.open_ db)) (a.op.program a.now).run (.open_ db) := a.op.program_okCommits rfl
  have hend := hall.runWith a.faults
  have hlt := hend.2 () h
  unfold Attempt.commits Attempt.conn
  exact bne_iff_ne.2 (Nat.ne_of_gt hlt)

end Others

end Nixbox.Store
