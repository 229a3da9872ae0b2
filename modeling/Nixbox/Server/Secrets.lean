/-
The handlers of the secrets page and of the secrets pane of a workload.
-/
import Nixbox.Server.Workloads

namespace Nixbox.Server

open Effect Prog Store
open Nix hiding FlakeInput

/-! ## The form -/

/-- `^[a-z_][a-z0-9_-]{0,31}$`. -/
def unixNameRe (s : String) : Bool :=
  match s.toList with
  | [] => false
  | c :: cs => (('a' ≤ c && c ≤ 'z') || c == '_') && cs.length ≤ 31 &&
    cs.all fun c => isAlnum c || c == '_' || c == '-'

/-- `^[0-7]{3,4}$`. -/
def modeRe (s : String) : Bool :=
  let cs := s.toList
  (cs.length == 3 || cs.length == 4) && cs.all fun c => '0' ≤ c && c ≤ '7'

/-- The validated common part of the create and save forms. -/
structure SecretFields where
  owner : String
  group : String
  mode : String
  value : String
  mounts : List ID
  deriving DecidableEq, Repr

/-- A form value, or the default for a blank one. -/
def orDefault (value default : String) : String :=
  let v := Go.trimSpace value
  if v = "" then default else v

/-- A posted mount: the id of a workload whose type supports mounts. -/
def parseMount (v : String) : ExceptT Msg (Prog Op) ID :=
  match Go.parseInt v with
  | none => throw ⟨"err.bad-mount", []⟩
  | some id => do
    match ← attempt (workloadByID id) with
    | .error _ => throw ⟨"err.bad-mount", []⟩
    | .ok wl =>
      if (lookup wl.type).any (·.supportsSecretMounts) then return id
      else throw ⟨"err.bad-mount", []⟩

/-- `parseSecretForm`. -/
def parseSecretForm (f : SecretForm) : ExceptT Msg (Prog Op) SecretFields := do
  let owner := orDefault f.owner "root"
  let group := orDefault f.group "root"
  let mode := orDefault f.mode "0400"
  if !unixNameRe owner || !unixNameRe group then throw ⟨"err.bad-owner", []⟩
  else if !modeRe mode then throw ⟨"err.bad-mode", []⟩
  else
    let mounts ← forEach parseMount f.mounts
    return ⟨owner, group, mode, Go.replaceCRLF f.value, mounts⟩

/-- Encrypt a value and write its ciphertext; the plaintext goes nowhere else. -/
def encryptSecret (name plaintext : String) : Call Unit := do
  let ct ← call (.encrypt plaintext)
  writeSecret name ct

/-! ## Creating -/

/-- The part shared by the two create handlers: `back` is the page the answer goes to, `mounts`
the workloads the new secret is delivered into. -/
def createSecretAt (back name : String) (form : SecretForm) (mounts : SecretFields → List ID) :
    Handler Response :=
  let fail (m : Msg) : Response := .redirect back (some (.error m))
  match validateName name with
  | .error m => return fail m
  | .ok () => do
    match ← attempt (parseSecretForm form) with
    | .error m => return fail m
    | .ok f =>
      if f.value = "" then return fail ⟨"err.value-required", []⟩
      else
        match ← attempt (secretByName name) with
        | .ok _ => return fail ⟨"err.secret-exists", [name]⟩
        | .error .failed => throw (.serverError .failed)
        | .error .notFound =>
          match ← attempt (encryptSecret name f.value) with
          | .error e => return fail (errText e)
          | .ok () =>
            let _ ← orError (createSecret name f.owner f.group f.mode (mounts f))
            return .redirect back (some (.flash ⟨"flash.secret-added", []⟩))

/-- `handleSecretCreate`. -/
def handleSecretCreate (name : String) (form : SecretForm) : Handler Response :=
  createSecretAt "/secrets" (Go.trimSpace name) form (·.mounts)

/-! ## Editing -/

/-- Back to the page of the secrets, with an error. -/
def secretsError (m : Msg) : Response := .redirect "/secrets" (some (.error m))

/-- Back to the page of the secrets. -/
def secretsFlash (key : String) : Response := .redirect "/secrets" (some (.flash ⟨key, []⟩))

/-- An empty value keeps the current ciphertext. -/
def handleSecretSave (name : String) (form : SecretForm) : Handler Response := do
  let sec ← lookupSecret name
  match ← attempt (parseSecretForm form) with
  | .error m => return secretsError m
  | .ok f =>
    match ← attempt (if f.value = "" then pure () else encryptSecret sec.name f.value) with
    | .error e => return secretsError (errText e)
    | .ok () =>
      orError (updateSecret sec.id f.owner f.group f.mode f.mounts)
      return secretsFlash "flash.secret-saved"

/-- `handleSecretDelete`. -/
def handleSecretDelete (name : String) : Handler Response := do
  let sec ← lookupSecret name
  orError (deleteSecret sec.id)
  return secretsFlash "flash.secret-removed"

/-- `handleSecretApply`. -/
def handleSecretApply (mode : String) : Handler Response :=
  answerJob "secrets" (startApply none (formMode mode))

/-! ## The secrets pane of a workload -/

/-- The workload of the path, of a type that delivers mounts. -/
def secretsWorkload (name : String) : Handler Workload := do
  let wl ← lookupWorkload name
  if (workloadType wl.type).supportsSecretMounts then return wl else throw .notFound

/-- `handleWorkloadSecretCreate`: a secret made on the page of a workload is mounted into it. -/
def handleWorkloadSecretCreate (name secret : String) (form : SecretForm) : Handler Response := do
  let wl ← secretsWorkload name
  createSecretAt (workloadPage wl.name) (Go.trimSpace secret) form fun _ => [wl.id]

/-- `setWorkloadSecretMount`. -/
def setWorkloadSecretMount (name secret : String) (attach : Bool) : Handler Response := do
  let wl ← secretsWorkload name
  match validateName secret with
  | .error m => return .redirect (workloadPage wl.name) (some (.error m))
  | .ok () =>
    match ← attempt (secretByName secret) with
    | .error .notFound => throw .notFound
    | .error e => throw (.serverError e)
    | .ok sec =>
      orError (if attach then addSecretMount sec.id wl.id else removeSecretMount sec.id wl.id)
      let flash := if attach then "flash.secret-attached" else "flash.secret-detached"
      return .redirect (workloadPage wl.name) (some (.flash ⟨flash, []⟩))

/-- `handleWorkloadSecretAttach`. -/
def handleWorkloadSecretAttach (name secret : String) : Handler Response :=
  setWorkloadSecretMount name secret true

/-- `handleWorkloadSecretDetach`. -/
def handleWorkloadSecretDetach (name secret : String) : Handler Response :=
  setWorkloadSecretMount name secret false

end Nixbox.Server
