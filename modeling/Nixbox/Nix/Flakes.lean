/-
The generated flake.nix as the document `renderFlake` produces: the inputs it declares and whether
its outputs import the agenix module.
-/
import Nixbox.Nix.Index
import Nixbox.Nix.Syntax

namespace Nixbox.Nix

/-- One external flake declared as an input of the state flake. -/
structure FlakeInput where
  name : String
  url : String
  followsNixpkgs : Bool
  deriving DecidableEq, Repr

/-- flake.nix: whether it declares nixpkgs and its own agenix pin, the user's inputs in name order,
and whether nixosModules.default imports inputs.agenix.nixosModules.default. -/
structure FlakeDoc where
  needNixpkgs : Bool
  ownAgenix : Bool
  inputs : List FlakeInput
  importsAgenix : Bool
  deriving DecidableEq, Repr

/-- What `renderFlake` emits for the declared inputs; a user input named agenix takes precedence
over the built-in pin, which follows nixpkgs. -/
def flakeDoc (inputs : List FlakeInput) (withAgenix : Bool) : FlakeDoc :=
  let sorted := inputs.insertionSort fun a b => a.name ≤ b.name
  let userAgenix := sorted.any fun i => i.name == "agenix"
  let ownAgenix := withAgenix && !userAgenix
  { needNixpkgs := ownAgenix || sorted.any (·.followsNixpkgs)
    ownAgenix := ownAgenix
    inputs := sorted
    importsAgenix := withAgenix }

/-! ## The text -/

/-- How the attributes of an input are laid out: `key.attr = value;` on a line of its own, a set on
one line, or a set with a line for each. -/
inductive Layout
  | path
  | inlineSet
  | blockSet
  deriving DecidableEq, Repr

/-- An input in the inputs block: its key and, below that, attribute paths with the text of their
values. -/
structure InputDecl where
  key : String
  attrs : List (List String × String)
  layout : Layout
  deriving DecidableEq, Repr

/-- The lines of an input. -/
def InputDecl.text (d : InputDecl) : String :=
  let attr (a : List String × String) : String := ".".intercalate a.1 ++ " = " ++ a.2 ++ ";"
  match d.layout with
  | .path => String.join (d.attrs.map fun a => "    " ++ d.key ++ "." ++ attr a ++ "\n")
  | .inlineSet => "    " ++ d.key ++ " = \x7b " ++ String.join (d.attrs.map fun a => attr a ++ " ") ++ "\x7d;\n"
  | .blockSet =>
    "    " ++ d.key ++ " = \x7b\n" ++ String.join (d.attrs.map fun a => "      " ++ attr a ++ "\n") ++ "    \x7d;\n"

/-- The nixpkgs that is declared where one is needed. -/
def nixpkgsDecl : InputDecl :=
  ⟨"nixpkgs", [(["url"], nixStr "github:NixOS/nixpkgs/nixos-unstable")], .path⟩

/-- The built-in pin; an empty target drops an input agenix would bring along. -/
def agenixDecl : InputDecl where
  key := "agenix"
  attrs := [(["url"], nixStr "github:ryantm/agenix"), (["inputs", "nixpkgs", "follows"], nixStr "nixpkgs"),
    (["inputs", "darwin", "follows"], nixStr ""), (["inputs", "home-manager", "follows"], nixStr "")]
  layout := .blockSet

/-- The input of a row. -/
def FlakeInput.decl (i : FlakeInput) : InputDecl :=
  if i.followsNixpkgs then
    ⟨nixAttrName i.name, [(["url"], nixStr i.url), (["inputs", "nixpkgs", "follows"], nixStr "nixpkgs")],
      .inlineSet⟩
  else ⟨nixAttrName i.name, [(["url"], nixStr i.url)], .path⟩

/-- The inputs block, in the order of the file. -/
def FlakeDoc.decls (d : FlakeDoc) : List InputDecl :=
  (if d.needNixpkgs then [nixpkgsDecl] else []) ++ (if d.ownAgenix then [agenixDecl] else []) ++
    d.inputs.map FlakeInput.decl

/-- `stateFlakeDescription`. -/
def stateFlakeDescription : String := "nixbox-managed workloads (generated; do not edit by hand)"

/-- The outputs of the flake, up to the end of the file. -/
def FlakeDoc.outputs (d : FlakeDoc) : String :=
  "  outputs = \x7b self, ... \x7d@inputs: \x7b\n    nixosModules.default = \x7b ... \x7d: \x7b\n      imports = " ++
    (if d.importsAgenix then "[ ./modules/default.nix inputs.agenix.nixosModules.default ]"
      else "[ ./modules/default.nix ]") ++
    " ++ (map\n        (path:\n          let v = import path;\n          in if builtins.isFunction v && (builtins.functionArgs v) ? flakeInputs\n             then v \x7b flakeInputs = inputs; \x7d\n             else v)\n        (builtins.attrValues ((import ./index.nix).hostServices or \x7b \x7d)));\n      _module.args.flakeInputs = inputs;\n    \x7d;\n  \x7d;\n\x7d\n"

/-- The file: a comment, then the set of the flake with its description, its inputs and its outputs. -/
def FlakeDoc.text (d : FlakeDoc) : String :=
  "# Generated by nixbox; do not edit by hand.\n\x7b\n" ++ "  description = " ++ nixStr stateFlakeDescription ++
    ";\n\n" ++ "  inputs = \x7b\n" ++ String.join (d.decls.map (·.text)) ++ "  \x7d;\n\n" ++ d.outputs

/-- The text of flake.nix for these inputs. -/
def renderFlake (inputs : List FlakeInput) (withAgenix : Bool) : String := (flakeDoc inputs withAgenix).text

/-! ## The inputs nixbox adds -/

section Added

variable {inputs : List FlakeInput} {withAgenix : Bool} {i : FlakeInput}

end Added

end Nixbox.Nix
