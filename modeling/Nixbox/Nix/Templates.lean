/-
The starting-point expressions offered when a workload is created, per workload type.
-/
import Nixbox.Nix.Ports

namespace Nixbox.Nix

/-- `Template`: what a new workload begins with. -/
structure Template where
  id : String
  content : String
  ports : List HostPort

/-- Text given line by line, each ended by a newline. -/
def lines (ls : List String) : String := String.join (ls.map (· ++ "\n"))

/-- The content of a container template is the whole `containers.<name>` value. -/
def containerTemplates : List Template := [
  { id := "blank"
    content := lines [
      "\x7b",
      "  autoStart = true;",
      "",
      "  config = \x7b config, pkgs, lib, ... \x7d: \x7b",
      "",
      "    system.stateVersion = \"26.05\";",
      "  \x7d;",
      "\x7d"]
    ports := [] },
  { id := "nginx"
    content := lines [
      "\x7b",
      "  autoStart = true;",
      "",
      "  config = \x7b config, pkgs, lib, ... \x7d: \x7b",
      "    services.nginx = \x7b",
      "      enable = true;",
      "      virtualHosts.localhost = \x7b",
      "        listen = [ \x7b addr = \"0.0.0.0\"; port = 8080; \x7d ];",
      "        root = pkgs.writeTextDir \"index.html\" \"<h1>Hello from nixbox</h1>\";",
      "      \x7d;",
      "    \x7d;",
      "",
      "    system.stateVersion = \"26.05\";",
      "  \x7d;",
      "\x7d"]
    ports := [⟨8080, .tcp⟩] },
  { id := "private-net"
    content := lines [
      "\x7b",
      "  autoStart = true;",
      "  privateNetwork = true;",
      "  hostAddress = \"10.100.0.1\";",
      "  localAddress = \"10.100.0.2\";",
      "",
      "  config = \x7b config, pkgs, lib, ... \x7d: \x7b",
      "    services.nginx.enable = true;",
      "    networking.firewall.allowedTCPPorts = [ 80 ];",
      "",
      "    system.stateVersion = \"26.05\";",
      "  \x7d;",
      "\x7d"]
    ports := [] },
  { id := "flake-module"
    content := lines [
      "\x7b flakeInputs \x7d: \x7b",
      "  autoStart = true;",
      "",
      "  config = \x7b config, pkgs, lib, ... \x7d: \x7b",
      "    # Requires a flake input named \"example\" (Flakes tab). The module runs",
      "    # inside this container, so its ports are the container's — open them in",
      "    # the Host ports field if the container shares the host network.",
      "    imports = [ flakeInputs.example.nixosModules.default ];",
      "",
      "    # Configure whatever the module provides, e.g.:",
      "    # services.example.enable = true;",
      "",
      "    system.stateVersion = \"26.05\";",
      "  \x7d;",
      "\x7d"]
    ports := [] }]

/-- A podman container spec. -/
def ociTemplates : List Template := [
  { id := "blank"
    content := lines [
      "\x7b",
      "  image = \"docker.io/library/alpine:latest\";",
      "  cmd = [ \"sh\" \"-c\" \"while true; do sleep 3600; done\" ];",
      "",
      "  # environment = \x7b TZ = \"UTC\"; \x7d;",
      "  # volumes = [ \"mydata:/data\" ];",
      "\x7d"]
    ports := [] },
  { id := "nginx"
    content := lines [
      "\x7b",
      "  image = \"docker.io/library/nginx:stable\";",
      "  # podman publishes host 8080 -> container 80 and installs its own",
      "  # firewall rules for the mapping, so no Host ports entry is needed. (A",
      "  # host-networked container — network_mode = \"host\" — would drop this",
      "  # mapping and instead need 8080 in Host ports, like a nixos-container.)",
      "  ports = [ \"8080:80\" ];",
      "\x7d"]
    ports := [] }]

/-- A NixOS module applied directly to the host. -/
def hostServiceTemplates : List Template := [
  { id := "blank"
    content := lines [
      "\x7b config, pkgs, lib, ... \x7d: \x7b",
      "  # Anything a NixOS configuration can set, applied to the host system.",
      "  # e.g. services.<something>.enable = true;",
      "\x7d"]
    ports := [] },
  { id := "nginx"
    content := lines [
      "\x7b config, pkgs, lib, ... \x7d: \x7b",
      "  services.nginx = \x7b",
      "    enable = true;",
      "    virtualHosts.localhost = \x7b",
      "      listen = [ \x7b addr = \"0.0.0.0\"; port = 8080; \x7d ];",
      "      root = pkgs.writeTextDir \"index.html\" \"<h1>Hello from a nixbox host service</h1>\";",
      "    \x7d;",
      "  \x7d;",
      "\x7d"]
    ports := [⟨8080, .tcp⟩] },
  { id := "flake-module"
    content := lines [
      "\x7b flakeInputs \x7d: \x7b",
      "  # Requires a flake input named \"example\" (Flakes tab). The module runs on",
      "  # the host itself; open the ports it serves in the Host ports field.",
      "  imports = [ flakeInputs.example.nixosModules.default ];",
      "",
      "  # Configure whatever the module provides, e.g.:",
      "  # services.example.enable = true;",
      "\x7d"]
    ports := [] }]

end Nixbox.Nix
