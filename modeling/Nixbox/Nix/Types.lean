/-
The registry of workload types: what varies between kinds of workload, in registration order.
-/
import Nixbox.Nix.Templates

namespace Nixbox.Nix

/-- A kind of workload. `indexKey` is its section of index.nix, `supportsSecretMounts` whether its
module delivers secrets, `dataDir` the path deleted on destroy-with-data ("" for none). -/
structure WorkloadType where
  id : String
  indexKey : String
  templates : List Template
  validateName : String → Except Msg Unit
  supportsSecretMounts : Bool
  unitName : String → String
  dataDir : String → String

/-- `TemplateByID`. -/
def WorkloadType.templateByID (wt : WorkloadType) (id : String) : Option Template :=
  wt.templates.find? fun t => t.id == id

/-- The type of NixOS containers. -/
def nixosContainer : WorkloadType where
  id := "nixos-container"
  indexKey := "containers"
  templates := containerTemplates
  validateName := validateContainerName
  supportsSecretMounts := true
  unitName name := "container@" ++ name ++ ".service"
  dataDir name := "/var/lib/nixos-containers/" ++ name

/-- The type of OCI containers. -/
def ociContainer : WorkloadType where
  id := "oci-container"
  indexKey := "ociContainers"
  templates := ociTemplates
  validateName := validateName
  supportsSecretMounts := true
  unitName name := "podman-" ++ name ++ ".service"
  dataDir _ := ""

/-- The type of host services. -/
def hostService : WorkloadType where
  id := "host-service"
  indexKey := "hostServices"
  templates := hostServiceTemplates
  validateName := validateName
  supportsSecretMounts := false
  unitName name := name ++ ".service"
  dataDir _ := ""

/-- The registry. -/
def registeredTypes : List WorkloadType := [nixosContainer, ociContainer, hostService]

/-- The descriptor of a type id; none for a type never registered. -/
def lookup (id : String) : Option WorkloadType := registeredTypes.find? fun wt => wt.id == id

/-- The descriptor of a stored type, the container type for an unrecognized one. -/
def workloadType (typ : String) : WorkloadType := (lookup typ).getD nixosContainer

end Nixbox.Nix
