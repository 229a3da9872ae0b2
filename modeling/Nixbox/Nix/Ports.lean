/-
Host firewall ports of a workload: the editor's rows parsed, the canonical string stored with a
revision, and that string read back.
-/
import Nixbox.Nix.Names
import Mathlib.Data.List.Sort

namespace Nixbox.Nix

open Go

/-- A protocol of the transport layer. -/
inductive Proto
  | tcp
  | udp
  deriving DecidableEq, Repr

/-- The protocols that are known by name. -/
def Proto.parse : String → Option Proto
  | "tcp" => some .tcp
  | "udp" => some .udp
  | _ => none

/-- The name of a protocol. -/
def Proto.name : Proto → String
  | .tcp => "tcp"
  | .udp => "udp"

/-- `HostPort`: a port of the host that is opened. -/
structure HostPort where
  port : Nat
  proto : Proto
  deriving DecidableEq, Repr

/-- The order of `sortHostPorts`: by protocol, then by port. -/
def HostPort.le (a b : HostPort) : Bool :=
  match a.proto, b.proto with
  | .tcp, .udp => true
  | .udp, .tcp => false
  | _, _ => a.port ≤ b.port

/-- The ports in order, first by number. -/
def sortHostPorts (ps : List HostPort) : List HostPort := ps.insertionSort fun a b => a.le b

/-- The number of a port field, in `1..65535`. -/
def portNumber (s : String) : Option Nat :=
  match parseInt s with
  | some n => if n < 1 ∨ n > 65535 then none else some n.toNat
  | none => none

/-- One editor row; a blank port is an empty row, a missing or blank protocol is tcp. -/
def parsePortRow (port : String) (proto : Option String) : Except Msg (Option HostPort) :=
  let ps := trimSpace port
  if ps = "" then .ok none
  else match portNumber ps with
    | none => .error ⟨"invalid port %q: must be a number 1-65535", [ps]⟩
    | some n =>
      let pr := trimSpace (proto.getD "")
      let pr := if pr = "" then "tcp" else pr
      match Proto.parse pr with
      | none => .error ⟨"invalid protocol %q: must be tcp or udp", [pr]⟩
      | some p => .ok (some ⟨n, p⟩)

/-- The loop of `ParseHostPorts` with the ports collected so far. -/
def parsePortRows (out : List HostPort) : List String → List String → Except Msg (List HostPort)
  | [], _ => .ok out
  | p :: ports, protos =>
    match parsePortRow p protos.head? with
    | .error e => .error e
    | .ok none => parsePortRows out ports protos.tail
    | .ok (some hp) => parsePortRows (if hp ∈ out then out else out ++ [hp]) ports protos.tail

/-- `ParseHostPorts`: the rows of a form, or the message on the first that is refused. -/
def parseHostPorts (ports protos : List String) : Except Msg (List HostPort) :=
  match parsePortRows [] ports protos with
  | .error e => .error e
  | .ok out => .ok (sortHostPorts out)

/-- `FormatHostPorts`. -/
def formatHostPorts (ps : List HostPort) : String :=
  " ".intercalate (ps.map fun p => toString p.port ++ "/" ++ p.proto.name)

/-- One token of the stored string; a malformed one is skipped. -/
def decodeHostPort (tok : String) : Option HostPort := do
  let (portStr, proto) ← cut tok '/'
  let n ← portNumber portStr
  let p ← Proto.parse proto
  return ⟨n, p⟩

/-- `DecodeHostPorts`. -/
def decodeHostPorts (s : String) : List HostPort := sortHostPorts ((fields s).filterMap decodeHostPort)

/-! ## Reading the stored string -/

theorem parseDigits_slash {acc : Nat} {cs : List Char} (h : '/' ∈ cs) : parseDigits acc cs = none := by
  induction cs generalizing acc with
  | nil => exact nomatch h
  | cons c cs ih =>
    unfold parseDigits
    split
    · rename_i hdigit
      rcases List.mem_cons.1 h with rfl | h
      · exact absurd hdigit (by decide)
      · exact ih h
    · rfl

/-- A number has no slash in it. -/
theorem parseInt_slash {s : String} (h : '/' ∈ s.toList) : parseInt s = none := by
  unfold parseInt
  dsimp only
  split
  · rename_i cs hs
    rw [hs] at h
    have hcs : '/' ∈ cs := (List.mem_cons.1 h).resolve_left (by decide)
    simp [parseDigits_slash hcs]
  · rename_i cs hs
    rw [hs] at h
    have hcs : '/' ∈ cs := (List.mem_cons.1 h).resolve_left (by decide)
    simp [parseDigits_slash hcs]
  · simp [parseDigits_slash h]

theorem portNumber_eq_some {s : String} {p : Nat} :
    portNumber s = some p ↔ parseInt s = some (p : Int) ∧ 1 ≤ p ∧ p ≤ 65535 := by
  unfold portNumber
  cases parseInt s with
  | none => simp
  | some n =>
    simp only [Option.some.injEq]
    split
    · simp only [reduceCtorEq, false_iff]
      omega
    · simp only [Option.some.injEq]
      omega

theorem Proto.parse_eq_some {s : String} {p : Proto} : Proto.parse s = some p ↔ s = p.name := by
  unfold Proto.parse
  constructor
  · intro h
    split at h <;> cases h <;> rfl
  · rintro rfl
    cases p <;> rfl

/-- A token of the stored string that counts. -/
theorem decodeHostPort_eq_some {tok : String} {p : HostPort} : decodeHostPort tok = some p ↔
    ∃ n, tok = n ++ "/" ++ p.proto.name ∧ parseInt n = some (p.port : Int) ∧
    1 ≤ p.port ∧ p.port ≤ 65535 := by
  obtain ⟨port, proto⟩ := p
  unfold decodeHostPort
  constructor
  · intro h
    obtain ⟨⟨n, pr⟩, hcut, h⟩ := Option.bind_eq_some_iff.1 h
    obtain ⟨n', hn, h⟩ := Option.bind_eq_some_iff.1 h
    obtain ⟨proto', hproto, h⟩ := Option.bind_eq_some_iff.1 h
    cases h
    rw [Proto.parse_eq_some] at hproto
    exact ⟨n, hproto ▸ cut_eq_some hcut, portNumber_eq_some.1 hn⟩
  · rintro ⟨n, rfl, hn⟩
    have hslash : '/' ∉ n.toList := by
      intro hmem
      rw [parseInt_slash hmem] at hn
      exact nomatch hn.1
    rw [show n ++ "/" ++ proto.name = n ++ String.singleton '/' ++ proto.name from rfl, cut_append hslash]
    simp [portNumber_eq_some.2 hn, Proto.parse_eq_some.2 rfl]

theorem mem_decodeHostPorts {s : String} {p : HostPort} : p ∈ decodeHostPorts s ↔
    ∃ tok ∈ fields s, ∃ n, tok = n ++ "/" ++ p.proto.name ∧ parseInt n = some (p.port : Int) ∧
      1 ≤ p.port ∧ p.port ≤ 65535 := by
  unfold decodeHostPorts sortHostPorts
  rw [List.mem_insertionSort, List.mem_filterMap]
  simp only [decodeHostPort_eq_some]

example : parseHostPorts ["443", " ", "53", "443"] ["", "tcp", "udp"] = .ok [⟨443, .tcp⟩, ⟨53, .udp⟩] := by
  decide

end Nixbox.Nix
