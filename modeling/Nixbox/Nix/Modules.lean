/-
The static modules of the state flake, the registered types with theirs, and modules/default.nix, which
imports them.
-/
import Nixbox.Go.Split
import Nixbox.Nix.Types

namespace Nixbox.Nix

/-! ## The texts -/

/-- Opens the host ports of every enabled workload. -/
def hostPortsModule : String := lines [
  "\x7b ... \x7d:",
  "",
  "let",
  "  index = import ../index.nix;",
  "in",
  "\x7b",
  "  # Host firewall ports declared by enabled workloads. Shared-namespace",
  "  # containers serve on the host's network stack, so the port they listen",
  "  # on must be opened here rather than inside the workload. \x60or [ ]\x60 keeps",
  "  # this evaluating against index files generated before host ports existed.",
  "  networking.firewall.allowedTCPPorts = index.hostPorts.tcp or [ ];",
  "  networking.firewall.allowedUDPPorts = index.hostPorts.udp or [ ];",
  "\x7d"]

/-- Declares every secret to agenix. -/
def secretsModule : String := lines [
  "\x7b lib, ... \x7d:",
  "",
  "let",
  "  index = import ../index.nix;",
  "in",
  "\x7b",
  "  # One agenix declaration per nixbox-managed secret. The decrypted file",
  "  # lands at config.age.secrets.<name>.path (/run/agenix/<name>).",
  "  age.secrets = lib.mapAttrs",
  "    (name: s: \x7b inherit (s) file owner group mode; \x7d)",
  "    (index.secrets or \x7b \x7d);",
  "\x7d"]

/-- `nixosContainerModule`. -/
def nixosContainerModule : String := lines [
  "\x7b config, lib, flakeInputs, ... \x7d:",
  "",
  "let",
  "  index = import ../index.nix;",
  "  # Secrets asked to be delivered into a given container, by workload",
  "  # name. The or-guards keep this evaluating against an index generated",
  "  # before secrets existed.",
  "  secretsFor = name: lib.filterAttrs",
  "    (_: s: lib.elem name (s.mounts.containers or [ ]))",
  "    (index.secrets or \x7b \x7d);",
  "in",
  "\x7b",
  "  containers = lib.mkMerge [",
  "    (lib.mapAttrs",
  "      (name: path: lib.toFunction (import path) \x7b inherit flakeInputs; \x7d)",
  "      (index.containers or \x7b \x7d))",
  "    # Deliver each mounted secret at the fixed /run/agenix/<secret> path",
  "    # inside the container by binding the decrypted host file (whose",
  "    # location agenix owns) read-only. config is the HOST config; it is",
  "    # only forced for containers that actually mount a secret.",
  "    (lib.mapAttrs",
  "      (name: _: \x7b",
  "        bindMounts = lib.mapAttrs'",
  "          (sname: _: lib.nameValuePair \"/run/agenix/$\x7bsname\x7d\" \x7b",
  "            hostPath = config.age.secrets.$\x7bsname\x7d.path;",
  "            isReadOnly = true;",
  "          \x7d)",
  "          (secretsFor name);",
  "      \x7d)",
  "      (index.containers or \x7b \x7d))",
  "  ];",
  "\x7d"]

/-- `ociContainerModule`. -/
def ociContainerModule : String := lines [
  "\x7b config, lib, flakeInputs, ... \x7d:",
  "",
  "let",
  "  index = import ../index.nix;",
  "  # Secrets asked to be delivered into a given container, by workload",
  "  # name. The or-guards keep this evaluating against an index generated",
  "  # before secrets existed.",
  "  secretsFor = name: lib.filterAttrs",
  "    (_: s: lib.elem name (s.mounts.ociContainers or [ ]))",
  "    (index.secrets or \x7b \x7d);",
  "in",
  "\x7b",
  "  virtualisation.oci-containers.backend = lib.mkDefault \"podman\";",
  "  virtualisation.oci-containers.containers = lib.mkMerge [",
  "    (lib.mapAttrs (name: path: lib.toFunction (import path) \x7b inherit flakeInputs; \x7d) (index.ociContainers or \x7b \x7d))",
  "    # Deliver each mounted secret at the fixed /run/agenix/<secret> path",
  "    # inside the container as a read-only podman volume of the decrypted",
  "    # host file. config is the HOST config; it is only forced for",
  "    # containers that actually mount a secret.",
  "    (lib.mapAttrs",
  "      (name: _: \x7b",
  "        volumes = lib.mapAttrsToList",
  "          (sname: _: \"$\x7bconfig.age.secrets.$\x7bsname\x7d.path\x7d:/run/agenix/$\x7bsname\x7d:ro\")",
  "          (secretsFor name);",
  "      \x7d)",
  "      (index.ociContainers or \x7b \x7d))",
  "  ];",
  "\x7d"]

/-- The lock of a flake without inputs. -/
def stateFlakeLock : String := lines [
  "\x7b",
  "  \"nodes\": \x7b",
  "    \"root\": \x7b\x7d",
  "  \x7d,",
  "  \"root\": \"root\",",
  "  \"version\": 7",
  "\x7d"]

/-! ## The registry -/

/-- A type as it is registered: with the static module `Init` writes for it, if it has one, and what the create form
asks of a name. -/
structure Registration extends WorkloadType where
  moduleFile : String
  module : String
  namePattern : String
  nameMaxLen : Nat

/-- The types in the order in which they are registered. -/
def registrations : List Registration := [
  { nixosContainer with
    moduleFile := "modules/nixos-container.nix"
    module := nixosContainerModule
    namePattern := "[a-z0-9]([a-z0-9-]\x7b0,9\x7d[a-z0-9])?"
    nameMaxLen := 11 },
  { ociContainer with
    moduleFile := "modules/oci-container.nix"
    module := ociContainerModule
    namePattern := "[a-z0-9]([a-z0-9-]\x7b0,61\x7d[a-z0-9])?"
    nameMaxLen := 63 },
  { hostService with
    moduleFile := ""
    module := ""
    namePattern := "[a-z0-9]([a-z0-9-]\x7b0,61\x7d[a-z0-9])?"
    nameMaxLen := 63 }]

theorem registrations_types : registrations.map (·.toWorkloadType) = registeredTypes := rfl

/-! ## The module list -/

/-- What `filepath.Base` gives for a path without a slash at its end. -/
def base (path : String) : String := (Go.split path "/").getLastD ""

/-- `modulesDefault`. -/
def modulesDefault : String :=
  "# Generated by nixbox; do not edit.\n\x7b\n  imports = [\n    ./hostports.nix\n" ++
    String.join ((registrations.filter (·.moduleFile ≠ "")).map fun wt => "    ./" ++ base wt.moduleFile ++ "\n") ++
    "  ]\n  ++ (if ((import ../index.nix).secrets or \x7b \x7d) == \x7b \x7d then [ ] else [ ./secrets.nix ]);\n\x7d\n"

/-- The map `static` of `Init`: what it writes each time. -/
def staticFiles : List (String × String) :=
  [("modules/hostports.nix", hostPortsModule), ("modules/secrets.nix", secretsModule),
    ("modules/default.nix", modulesDefault)] ++
    (registrations.filter (·.moduleFile ≠ "")).map fun wt => (wt.moduleFile, wt.module)

/-- The files a module of `modules/` imports from beside it: the words of its text that are a path from there. -/
def importsOf (text : String) : List String :=
  ((Go.fields text).filter (Go.hasPrefix · "./")).map fun w => String.ofList (w.toList.drop 2)

/-- modules/default.nix imports what `Init` writes beside it, each file once. -/
theorem modulesDefault_imports : importsOf modulesDefault =
    ["hostports.nix", "nixos-container.nix", "oci-container.nix", "secrets.nix"] := by decide +kernel

end Nixbox.Nix
