/-
Requests and answers, and what handlers share: looking up the row a path names, and answering for
a job that was started or refused. A handler returns its answer or stops early with one.
-/
import Nixbox.Jobs.Manager

namespace Nixbox.Server

open Effect Prog Store
open Nix hiding FlakeInput

/-! ## Requests -/

/-- The form of a new workload; `hx` for one posted from the dialog. -/
structure WorkloadForm where
  name : String
  displayName : String
  type : String
  template : String
  hx : Bool
  deriving DecidableEq, Repr

/-- The fields shared by the secret forms, as posted. -/
structure SecretForm where
  owner : String
  group : String
  mode : String
  value : String
  mounts : List String
  deriving DecidableEq, Repr

/-- The requests that can write, with the values of their paths and forms. -/
inductive Request
  | workloadCreate (form : WorkloadForm)
  | workloadSave (name content : String) (ports protos : List String)
  | workloadEnable (name : String)
  | workloadDisable (name : String)
  | workloadRename (name displayName : String)
  | workloadApply (name mode : String)
  | workloadRestore (name id : String)
  | workloadDestroy (name confirm deleteData : String)
  | workloadSecretCreate (name secret : String) (form : SecretForm)
  | workloadSecretAttach (name secret : String)
  | workloadSecretDetach (name secret : String)
  | flakeCreate (name url followsNixpkgs : String)
  | flakeSave (name url followsNixpkgs : String)
  | flakeDelete (name : String)
  | flakeApply (mode : String)
  | secretCreate (name : String) (form : SecretForm)
  | secretSave (name : String) (form : SecretForm)
  | secretDelete (name : String)
  | secretApply (mode : String)
  | rebuild
  deriving DecidableEq, Repr

/-! ## Answers -/

/-- A banner of a page. -/
inductive Note
  | flash (msg : Msg)
  | error (msg : Msg)
  deriving DecidableEq, Repr

/-- The answers, as far as the store and the jobs decide them. -/
inductive Response
  /-- `http.Error` with the message of the request's locale. -/
  | error (code : Nat) (msg : Msg)
  /-- `httpError` with status 500. -/
  | serverError (e : Err)
  | notFound
  /-- 303, the note in the query. -/
  | redirect (path : String) (note : Option Note)
  | hxRedirect (path : String)
  /-- 422: the form again, as the dialog's fragment or the whole page. -/
  | newWorkload (error : Msg) (name displayName type : String) (modal : Bool)
  | saveResult (note : Note)
  | jobLog (page : String) (job : Job)
  deriving DecidableEq, Repr

/-- The refusal while another job runs. -/
def Response.busy : Response := .error 409 ⟨"err.busy", []⟩

/-- `err.Error()` of an error shown to the user. -/
def errText : Err → Msg
  | .notFound => ⟨"not found", []⟩
  | .failed => ⟨"request failed", []⟩

/-! ## Shared by the handlers -/

/-- A handler, which may stop with an answer. -/
abbrev Handler (α : Type) := ExceptT Response (Prog Op) α

/-- An error of the call is answered with `httpError`. -/
def orError {α : Type} (x : Call α) : Handler α := x.adapt Response.serverError

/-- The row of the path's name: 400 for a name that is none, 404 for an unknown one. -/
def lookupBy {α : Type} (name : String) (byName : String → Call α) : Handler α :=
  match validateName name with
  | .error m => throw (.error 400 m)
  | .ok () => do
    match ← attempt (byName name) with
    | .error .notFound => throw .notFound
    | .error e => throw (.serverError e)
    | .ok a => return a

/-- `lookupWorkload`. -/
def lookupWorkload (name : String) : Handler Workload := lookupBy name workloadByName

/-- `lookupFlakeInput`. -/
def lookupFlakeInput (name : String) : Handler FlakeInput := lookupBy name flakeInputByName

/-- `lookupSecret`. -/
def lookupSecret (name : String) : Handler Secret := lookupBy name secretByName

/-- The answer to a request for a job. -/
def answerJob (page : String) (x : ExceptT Jobs.StartError (Prog Op) Job) : Handler Response := do
  match ← attempt x with
  | .error .busy => throw .busy
  | .error (.store e) => throw (.serverError e)
  | .ok job => return .jobLog page job

/-! ## The rules of these -/

section Rules

variable {α : Type} {s : State} {F : ∀ β : Type, Op β → Bool} {Q : Except Response α → State → Prop}

theorem ends_orError {x : Call α} :
    EndsIf F Q (orError x).run s ↔ EndsIf F (fun r => Q (r.mapError Response.serverError)) x.run s :=
  ends_adapt

/-- Looking a row up reads it; one returned was found under a valid name. -/
theorem reads_lookupBy {P : α → Prop} {name : String} {byName : String → Call α}
    (h : Reads P (byName name) s) :
    Reads (fun a => validateName name = .ok () ∧ P a) (lookupBy name byName) s := by
  unfold lookupBy
  split
  · exact reads_throw
  · rename_i hname
    refine ends_exceptT_bind.2 (ends_attempt.2 (EndsIf.mono h fun r s' hr => ?_))
    obtain ⟨rfl, hr⟩ := hr
    match r, hr with
    | .error .notFound, _ => exact reads_throw
    | .error .failed, _ => exact reads_throw
    | .ok a, hr => exact reads_pure ⟨hname, hr a rfl⟩

theorem workloadByName_ok {db : Db} {name : String} {w : Workload} (h : db.workloadByName name = .ok w) :
    w ∈ db.workloads ∧ w.name = name := by
  unfold Db.workloadByName at h
  split at h
  · rename_i x hx
    cases h
    exact ⟨List.mem_of_find?_eq_some hx, by simpa using List.find?_some hx⟩
  · cases h

theorem reads_lookupWorkload (name : String) :
    Reads (fun w => validateName name = .ok () ∧ w ∈ s.db.workloads ∧ w.name = name) (lookupWorkload name) s :=
  reads_lookupBy (EndsIf.mono reads_query fun _ _ h => ⟨h.1, fun a ha => workloadByName_ok (h.2 a ha)⟩)

theorem ends_answerJob {page : String} {x : ExceptT Jobs.StartError (Prog Op) Job}
    {Q : Except Response Response → State → Prop} :
    EndsIf F Q (answerJob page x).run s ↔ EndsIf F (fun r s' => Q (match r with
      | .error .busy => .error .busy
      | .error (.store e) => .error (.serverError e)
      | .ok job => .ok (.jobLog page job)) s') x.run s := by
  unfold answerJob
  rw [ends_exceptT_bind, ends_attempt]
  constructor <;> refine fun h => EndsIf.mono h fun r s' hr => ?_
  · match r, hr with
    | .error .busy, hr => exact ends_throw.1 hr
    | .error (.store e), hr => exact ends_throw.1 hr
    | .ok job, hr => exact ends_return.1 hr
  · match r, hr with
    | .error .busy, hr => exact ends_throw.2 hr
    | .error (.store e), hr => exact ends_throw.2 hr
    | .ok job, hr => exact ends_return.2 hr

end Rules

end Nixbox.Server
