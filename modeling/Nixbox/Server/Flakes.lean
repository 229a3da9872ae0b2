/-
The handlers of the flakes page.
-/
import Nixbox.Server.Apply

namespace Nixbox.Server

open Effect Prog Store
open Nix hiding FlakeInput

/-- Back to the flakes page with an error. -/
def flakesError (m : Msg) : Response := .redirect "/flakes" (some (.error m))

/-- Back to the page of the inputs. -/
def flakesFlash (key : String) : Response := .redirect "/flakes" (some (.flash ⟨key, []⟩))

/-- `handleFlakeCreate`. -/
def handleFlakeCreate (name url followsNixpkgs : String) : Handler Response :=
  let name := Go.trimSpace name
  let ref := Go.trimSpace url
  let follows := followsNixpkgs == "on"
  match validateName name with
  | .error m => return flakesError m
  | .ok () =>
    if ref = "" then return flakesError ⟨"err.ref-required", []⟩
    else do
      match ← attempt (flakeInputByName name) with
      | .ok _ => return flakesError ⟨"err.input-exists", [name]⟩
      | .error .failed => throw (.serverError .failed)
      | .error .notFound =>
        let _ ← orError (createFlakeInput name ref follows)
        return flakesFlash "flash.input-added"

/-- `handleFlakeSave`. -/
def handleFlakeSave (name url followsNixpkgs : String) : Handler Response := do
  let f ← lookupFlakeInput name
  let ref := Go.trimSpace url
  let follows := followsNixpkgs == "on"
  if ref = "" then return flakesError ⟨"err.ref-required", []⟩
  else
    orError (updateFlakeInput f.id ref follows)
    return flakesFlash "flash.input-saved"

/-- `handleFlakeDelete`. -/
def handleFlakeDelete (name : String) : Handler Response := do
  let f ← lookupFlakeInput name
  orError (deleteFlakeInput f.id)
  return flakesFlash "flash.input-removed"

/-- `handleFlakeApply`. -/
def handleFlakeApply (mode : String) : Handler Response :=
  answerJob "flakes" (startApply none (formMode mode))

end Nixbox.Server
