/-
Regenerating index.nix and flake.nix from the rows, and starting an apply job.
-/
import Nixbox.Server.Requests

namespace Nixbox.Server

open Effect Prog Store
open Nix hiding FlakeInput

/-! ## The index -/

/-- A delivery appended to the list of its key. -/
def addMount (key name : String) : List (String × List String) → List (String × List String)
  | [] => [(key, [name])]
  | (k, names) :: rest => if k = key then (k, names ++ [name]) :: rest else (k, names) :: addMount key name rest

/-- Where a mount is delivered: the index key and name of an enabled workload of a type that
supports mounts. -/
def delivery (workloads : List Workload) (wid : ID) : Option (String × String) := do
  let wl ← workloads.find? fun w => w.id == wid
  let wt ← lookup wl.type
  if wl.enabled && wt.supportsSecretMounts then some (wt.indexKey, wl.name) else none

/-- A secret as index.nix lists it. -/
def indexSecret (workloads : List Workload) (sec : Secret) : IndexSecret where
  name := sec.name
  owner := sec.owner
  group := sec.group
  mode := sec.mode
  mounts := (sec.workloadIDs.filterMap (delivery workloads)).foldl (fun m d => addMount d.1 d.2 m) []

/-- The secrets as index.nix lists them. -/
def indexSecrets (workloads : List Workload) : Call (List IndexSecret) := do
  let secrets ← secrets
  return secrets.map (indexSecret workloads)

/-- The entry of an enabled workload; its host ports live on the latest revision. -/
def indexEntry (wl : Workload) : Call IndexEntry := do
  let rev ← latestRevision wl.id
  return ⟨wl.name, wl.type, decodeHostPorts rev.ports⟩

/-- `regenerateIndex`. -/
def regenerateIndex : Call Unit := do
  let workloads ← workloads
  let entries ← forEach indexEntry (workloads.filter (·.enabled))
  let secrets ← indexSecrets workloads
  writeIndex entries secrets

/-! ## The flake -/

/-- The input as flake.nix declares it. -/
def declared (f : Store.FlakeInput) : Nix.FlakeInput := ⟨f.name, f.url, f.followsNixpkgs⟩

/-- `regenerateFlake`. -/
def regenerateFlake : Call Unit := do
  let rows ← flakeInputs
  let secrets ← secrets
  writeFlake (rows.map declared) (!secrets.isEmpty)

/-! ## The job -/

/-- The snapshot of an enabled workload: its id and that of its latest revision. -/
def snapshotRevision (wl : Workload) : Call (ID × ID) := do
  let rev ← latestRevision wl.id
  return (wl.id, rev.id)

/-- An error of the call is returned to the handler. -/
def orStore {α : Type} (x : Call α) : ExceptT Jobs.StartError (Prog Op) α := x.adapt Jobs.StartError.store

/-- What `startApply` does before it asks for the job slot; the snapshots it returns are the
variables of the job's closure. -/
def prepareApply : Call (List (ID × ID) × List ID × List ID) := do
  regenerateIndex
  regenerateFlake
  let workloads ← workloads
  let applied ← forEach snapshotRevision (workloads.filter (·.enabled))
  let inputs ← flakeInputs
  let secrets ← secrets
  pruneSecrets (secrets.map (·.name))
  return (applied, inputs.map (·.id), secrets.map (·.id))

/-- `startApply`: the state flake is regenerated, and the job is started. -/
def startApply (workloadID : Option ID) (mode : RebuildMode) : ExceptT Jobs.StartError (Prog Op) Job := do
  let (applied, appliedInputs, appliedSecrets) ← orStore prepareApply
  let kind := if mode = .build then JobKind.validate else .apply
  Jobs.start kind workloadID (.apply mode applied appliedInputs appliedSecrets)

/-- The `mode` field of the apply forms. -/
def formMode (mode : String) : RebuildMode := if mode = "build" then .build else .switch

/-- `handleRebuild`. -/
def handleRebuild : Handler Response := answerJob "system" (startApply none .switch)

end Nixbox.Server
