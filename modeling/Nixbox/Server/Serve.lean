/-
The handler of each request.
-/
import Nixbox.Server.Flakes
import Nixbox.Server.Secrets

namespace Nixbox.Server

open Effect

/-- The handler of a request. -/
def handler : Request → Handler Response
  | .workloadCreate form => handleWorkloadCreate form
  | .workloadSave name content ports protos => handleWorkloadSave name content ports protos
  | .workloadEnable name => handleWorkloadEnable name
  | .workloadDisable name => handleWorkloadDisable name
  | .workloadRename name displayName => handleWorkloadRename name displayName
  | .workloadApply name mode => handleWorkloadApply name mode
  | .workloadRestore name id => handleWorkloadRestore name id
  | .workloadDestroy name confirm deleteData => handleWorkloadDestroy name confirm deleteData
  | .workloadSecretCreate name secret form => handleWorkloadSecretCreate name secret form
  | .workloadSecretAttach name secret => handleWorkloadSecretAttach name secret
  | .workloadSecretDetach name secret => handleWorkloadSecretDetach name secret
  | .flakeCreate name url followsNixpkgs => handleFlakeCreate name url followsNixpkgs
  | .flakeSave name url followsNixpkgs => handleFlakeSave name url followsNixpkgs
  | .flakeDelete name => handleFlakeDelete name
  | .flakeApply mode => handleFlakeApply mode
  | .secretCreate name form => handleSecretCreate name form
  | .secretSave name form => handleSecretSave name form
  | .secretDelete name => handleSecretDelete name
  | .secretApply mode => handleSecretApply mode
  | .rebuild => handleRebuild

/-- The answer, returned or thrown. -/
def Handler.answer (h : Handler Response) : Prog Op Response := do
  match ← h.run with
  | .ok r => return r
  | .error r => return r

/-- What a request does, to its answer. -/
def serve (r : Request) : Prog Op Response := (handler r).answer

end Nixbox.Server
