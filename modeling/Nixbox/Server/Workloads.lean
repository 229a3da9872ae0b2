/-
The handlers of the workload pages.
-/
import Nixbox.Server.Apply

namespace Nixbox.Server

open Effect Prog Store
open Nix hiding FlakeInput

/-- The page of a workload. -/
def workloadPage (name : String) : String := "/workloads/" ++ name

/-! ## Creating -/

/-- The checks of the create form before the store is asked. -/
def checkCreate (name displayName typ template : String) : Except Msg (WorkloadType × Template) := do
  match lookup typ with
  | none => throw ⟨"err.unknown-type", []⟩
  | some wt =>
    wt.validateName name
    validateDisplayName displayName
    match wt.templateByID template with
    | none => throw ⟨"err.unknown-template", []⟩
    | some tmpl => return (wt, tmpl)

/-- `handleWorkloadCreate`: the checks, the file, then the row. -/
def handleWorkloadCreate (f : WorkloadForm) : Handler Response :=
  let name := Go.trimSpace f.name
  let displayName := Go.trimSpace f.displayName
  let fail (m : Msg) : Response := .newWorkload m name displayName (workloadType f.type).id f.hx
  match checkCreate name displayName f.type f.template with
  | .error m => return fail m
  | .ok (wt, tmpl) => do
    match ← attempt (workloadByName name) with
    | .ok _ => return fail ⟨"err.name-exists", [name]⟩
    | .error .failed => throw (.serverError .failed)
    | .error .notFound =>
      orError (writeWorkload name tmpl.content)
      let _ ← orError (createWorkload name displayName wt.id tmpl.content (formatHostPorts tmpl.ports))
      return if f.hx then .hxRedirect (workloadPage name) else .redirect (workloadPage name) none

/-! ## Editing -/

/-- The content of the textarea as it is stored: ended by a newline, no CRLF. -/
def normalizeContent (content : String) : String :=
  Go.replaceCRLF (if Go.hasSuffix content "\n" then content else content ++ "\n")

/-- `handleWorkloadSave`: the file, then the row; the syntax is checked last. -/
def handleWorkloadSave (name content : String) (ports protos : List String) : Handler Response := do
  let wl ← lookupWorkload name
  let content := normalizeContent content
  match parseHostPorts ports protos with
  | .error m => return .saveResult (.error m)
  | .ok ports =>
    orError (writeWorkload wl.name content)
    let _ ← orError (saveRevision wl.id content (formatHostPorts ports) "edit")
    match ← ExceptT.lift (perform (.checkSyntax wl.name)) with
    | some m => return .saveResult (.error ⟨m, []⟩)
    | none => return .saveResult (.flash ⟨"flash.saved", []⟩)

/-- `handleWorkloadRestore`: the content of an older revision as a new one. -/
def handleWorkloadRestore (name id : String) : Handler Response := do
  let wl ← lookupWorkload name
  match Go.parseInt id with
  | none => throw (.error 400 ⟨"err.bad-revision", []⟩)
  | some revID =>
    let revs ← orError (revisions wl.id)
    match revs.find? fun r => r.id == revID with
    | none => throw .notFound
    | some target =>
      orError (writeWorkload wl.name target.content)
      let note := "restore of #" ++ toString revID
      let _ ← orError (saveRevision wl.id target.content target.ports note)
      return .redirect (workloadPage wl.name) (some (.flash ⟨"flash.restored", [toString revID]⟩))

/-- What the two handlers below share. -/
def setEnabled (name : String) (enabled : Bool) : Handler Response := do
  let wl ← lookupWorkload name
  orError (setWorkloadEnabled wl.id enabled)
  let flash := if enabled then "flash.enabled" else "flash.disabled"
  return .redirect (workloadPage wl.name) (some (.flash ⟨flash, []⟩))

/-- `handleWorkloadEnable`. -/
def handleWorkloadEnable (name : String) : Handler Response := setEnabled name true

/-- `handleWorkloadDisable`. -/
def handleWorkloadDisable (name : String) : Handler Response := setEnabled name false

/-- `handleWorkloadRename`. -/
def handleWorkloadRename (name displayName : String) : Handler Response := do
  let wl ← lookupWorkload name
  let displayName := Go.trimSpace displayName
  match validateDisplayName displayName with
  | .error m => throw (.error 422 m)
  | .ok () =>
    orError (setWorkloadDisplayName wl.id displayName)
    return .redirect (workloadPage wl.name) (some (.flash ⟨"flash.renamed", []⟩))

/-! ## Jobs -/

/-- `handleWorkloadApply`. -/
def handleWorkloadApply (name mode : String) : Handler Response := do
  let wl ← lookupWorkload name
  answerJob "workload" (startApply (some wl.id) (formMode mode))

/-- Disable the workload, regenerate the index without it, and start the job that rebuilds and
then deletes it. -/
def handleWorkloadDestroy (name confirm deleteData : String) : Handler Response := do
  let wl ← lookupWorkload name
  if confirm = wl.name then
    orError (setWorkloadEnabled wl.id false)
    orError regenerateIndex
    answerJob "workload"
      (Jobs.start .apply (some wl.id) (.destroy wl.name wl.id wl.type (deleteData == "on")))
  else throw (.error 422 ⟨"err.confirm-mismatch", []⟩)

/-! ## The badge of the detail page -/

/-- What the badge says. -/
inductive DetailState
  | draft
  | pending
  | applied
  deriving DecidableEq, Repr

/-- The state `workloadDetailData` derives from the workload's row and its latest revision. -/
def detailState (wl : Workload) (latest : Revision) : DetailState :=
  match wl.appliedRevisionID with
  | none => .draft
  | some id => if id ≠ latest.id then .pending else .applied

end Nixbox.Server
