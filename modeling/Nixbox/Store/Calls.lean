/-
The functions of the store as programs of database calls, and what the reading ones return.
-/
import Nixbox.Lib.Marks
import Nixbox.Service.State

namespace Nixbox

open Effect Prog Keyed

/-- A function that calls the store or the state flake and may fail. -/
abbrev Call (α : Type) := ExceptT Store.Err (Prog Op) α

/-- The function of a single call. -/
def call {α : Type} (op : Op (Except Store.Err α)) : Call α := ExceptT.mk (perform op)

/-- The result of a function as a value, for a caller that goes on after an error. -/
def attempt {α ε : Type} (x : ExceptT ε (Prog Op) α) {ε' : Type} : ExceptT ε' (Prog Op) (Except ε α) :=
  ExceptT.lift x.run

namespace Store

/-! ## Reading -/

/-- A query, as a call of the store. -/
def query {α : Type} (q : Db → Except Err α) : Call α := call (.query q)

/-- `Workloads`. -/
def workloads : Call (List Workload) := query fun db => .ok db.workloadList

/-- `WorkloadByID`. -/
def workloadByID (id : ID) : Call Workload := query fun db => db.workloadByID id

/-- `WorkloadByName`. -/
def workloadByName (name : String) : Call Workload := query fun db => db.workloadByName name

/-- `LatestRevision`. -/
def latestRevision (workloadID : ID) : Call Revision := query fun db => db.latestRevision workloadID

/-- `Revisions`. -/
def revisions (workloadID : ID) : Call (List Revision) := query fun db => .ok (db.revisionList workloadID)

/-- `FlakeInputs`. -/
def flakeInputs : Call (List FlakeInput) := query fun db => .ok db.flakeInputList

/-- `FlakeInputByName`. -/
def flakeInputByName (name : String) : Call FlakeInput := query fun db => db.flakeInputByName name

/-- `JobByID`. -/
def jobByID (id : ID) : Call Job := query fun db => db.jobByID id

/-- `loadMounts`: a secret with the workloads it is mounted into. -/
def loadMounts (s : SecretRow) : Call Secret := do
  let workloadIDs ← query fun db => .ok (db.mountsOf s.id)
  return { s with workloadIDs := workloadIDs }

/-- `Secrets`. -/
def secrets : Call (List Secret) := do
  let rows ← query fun db => .ok db.secretRows
  forEach loadMounts rows

/-- `SecretByID`. -/
def secretByID (id : ID) : Call Secret := do
  let s ← query fun db => db.secretRowByID id
  loadMounts s

/-- `SecretByName`. -/
def secretByName (name : String) : Call Secret := do
  let s ← query fun db => db.secretRowByName name
  loadMounts s

/-! ## Writing -/

/-- A statement, as a call of the store. -/
def write {α : Type} (w : Write α) : Call α := call (.write w)

/-- `CreateWorkload`. -/
def createWorkload (name displayName typ content ports : String) : Call Workload := do
  let id ← write (.createWorkload name displayName typ content ports)
  workloadByID id

/-- `SetWorkloadEnabled`. -/
def setWorkloadEnabled (id : ID) (enabled : Bool) : Call Unit := write (.setWorkloadEnabled id enabled)

/-- `SetWorkloadDisplayName`. -/
def setWorkloadDisplayName (id : ID) (displayName : String) : Call Unit :=
  write (.setWorkloadDisplayName id displayName)

/-- `SaveRevision`. -/
def saveRevision (workloadID : ID) (content ports note : String) : Call ID :=
  write (.saveRevision workloadID content ports note)

/-- `CreateJob`. -/
def createJob (kind : JobKind) (workloadID : Option ID) (logPath : String) : Call Job := do
  let id ← write (.createJob kind workloadID logPath)
  jobByID id

/-- `SetJobLogPath`. -/
def setJobLogPath (id : ID) (logPath : String) : Call Unit := write (.setJobLogPath id logPath)

/-- `CreateFlakeInput`. -/
def createFlakeInput (name url : String) (followsNixpkgs : Bool) : Call FlakeInput := do
  let id ← write (.createFlakeInput name url followsNixpkgs)
  query fun db => match db.flakeInputs.find? id with
    | some f => .ok f
    | none => .error .notFound

/-- `UpdateFlakeInput`. -/
def updateFlakeInput (id : ID) (url : String) (followsNixpkgs : Bool) : Call Unit :=
  write (.updateFlakeInput id url followsNixpkgs)

/-- `DeleteFlakeInput`. -/
def deleteFlakeInput (id : ID) : Call Unit := write (.deleteFlakeInput id)

/-- `CreateSecret`. -/
def createSecret (name owner group mode : String) (workloadIDs : List ID) : Call Secret := do
  let id ← write (.createSecret name owner group mode workloadIDs)
  secretByID id

/-- `UpdateSecret`. -/
def updateSecret (id : ID) (owner group mode : String) (workloadIDs : List ID) : Call Unit :=
  write (.updateSecret id owner group mode workloadIDs)

/-- `updated_at` moves only if the statement changed a row. -/
def touchOnChange (n : Nat) (secretID : ID) : Call Unit :=
  if n = 0 then pure () else write (.touchSecret secretID)

/-- `AddSecretMount`: the secret is touched only if the mount is new. -/
def addSecretMount (secretID workloadID : ID) : Call Unit := do
  let n ← write (.insertMountOrIgnore secretID workloadID)
  touchOnChange n secretID

/-- `RemoveSecretMount`: the secret is touched only if there was a mount. -/
def removeSecretMount (secretID workloadID : ID) : Call Unit := do
  let n ← write (.deleteMount secretID workloadID)
  touchOnChange n secretID

/-- `DeleteSecret`. -/
def deleteSecret (id : ID) : Call Unit := write (.deleteSecret id)

/-- The secrets with their mounts, in name order. -/
def Db.secretList (db : Db) : List Secret :=
  db.secretRows.map fun s => { s with workloadIDs := db.mountsOf s.id }

end Store

/-! ## The rules of the calls -/

section Rules

variable {α ε ε' : Type} {s : State} {fs : List Bool} {F : ∀ β : Type, Op β → Bool}

theorem endsIf_call {op : Op (Except Store.Err α)} {Q : Except Store.Err α → State → Prop} :
    EndsIf F Q (call op).run s ↔
      Q (s.exec op).1 (s.exec op).2 ∧ (F _ op = true → ∀ r, op.fault = some r → Q r s) :=
  endsIf_perform

theorem endsIf_query {q : Store.Db → Except Store.Err α} {Q : Except Store.Err α → State → Prop}
    (hok : Q (q s.db) s) (hfail : Q (.error .failed) s) : EndsIf F Q (Store.query q).run s :=
  endsIf_call.2 ⟨hok, fun _ r hr => by cases hr; exact hfail⟩

theorem endsIf_write {w : Write α} {Q : Except Store.Err α → State → Prop} :
    EndsIf F Q (Store.write w).run s ↔
      Q (s.write w).1 (s.write w).2 ∧ (F _ (.write w) = true → Q (.error .failed) s) := by
  refine endsIf_call.trans (and_congr_right fun _ => ?_)
  exact ⟨fun h hF => h hF _ rfl, fun h hF r hr => by cases hr; exact h hF⟩

theorem ends_call {op : Op (Except Store.Err α)} {Q : Except Store.Err α → State → Prop} :
    Ends Q (call op).run s ↔ Q (s.exec op).1 (s.exec op).2 ∧ ∀ r, op.fault = some r → Q r s :=
  ends_perform

theorem ends_attempt {x : ExceptT ε (Prog Op) α} {Q : Except ε' (Except ε α) → State → Prop} :
    EndsIf F Q (attempt x).run s ↔ EndsIf F (fun r => Q (.ok r)) x.run s :=
  ends_lift

theorem ends_query {q : Store.Db → Except Store.Err α} {Q : Except Store.Err α → State → Prop} :
    Ends Q (Store.query q).run s ↔ Q (q s.db) s ∧ Q (.error .failed) s := by
  refine ends_call.trans (and_congr_right fun _ => ?_)
  exact ⟨fun h => h _ rfl, fun h r hr => by cases hr; exact h⟩

theorem ends_write {w : Write α} {Q : Except Store.Err α → State → Prop} :
    Ends Q (Store.write w).run s ↔ Q (s.write w).1 (s.write w).2 ∧ Q (.error .failed) s := by
  refine ends_call.trans (and_congr_right fun _ => ?_)
  exact ⟨fun h => h _ rfl, fun h r hr => by cases hr; exact h⟩

theorem endsMarked_call {Q : Except Store.Err α → State → List Bool → Prop} {op : Op (Except Store.Err α)}
    (hop : op.fault = some (.error .failed)) : EndsMarked Q (call op).run fs s ↔
      if fs.headD false then Q (.error .failed) s fs.tail else Q (s.exec op).1 (s.exec op).2 fs.tail :=
  endsMarked_perform_fault hop

theorem endsMarked_query {Q : Except Store.Err α → State → List Bool → Prop}
    {q : Store.Db → Except Store.Err α} :
    EndsMarked Q (Store.query q).run fs s ↔
    if fs.headD false then Q (.error .failed) s fs.tail else Q (q s.db) s fs.tail :=
  endsMarked_call rfl

theorem endsMarked_attempt {Q : Except ε' (Except ε α) → State → List Bool → Prop}
    {x : ExceptT ε (Prog Op) α} : EndsMarked Q (attempt x : ExceptT ε' (Prog Op) (Except ε α)).run fs s ↔
      EndsMarked (fun r => Q (.ok r)) x.run fs s :=
  endsMarked_lift

/-- A query leaves everything as it is and returns what it finds. -/
theorem reads_query {q : Store.Db → Except Store.Err α} : Reads (fun a => q s.db = .ok a) (Store.query q) s :=
  ends_query.2 ⟨⟨rfl, fun _ h => h⟩, rfl, nofun⟩

theorem reads_query_ok {f : Store.Db → α} : Reads (· = f s.db) (Store.query fun db => .ok (f db)) s :=
  ends_query.2 ⟨⟨rfl, fun _ h => by cases h; rfl⟩, rfl, nofun⟩

theorem reads_secrets : Reads (· = s.db.secretList) Store.secrets s := by
  refine reads_query_ok.seq fun rows hrows => ?_
  rw [hrows]
  refine reads_forEach fun row _ => ?_
  exact reads_query_ok.seq fun ids hids => reads_pure (by rw [hids])

end Rules

end Nixbox
