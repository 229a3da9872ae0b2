/-
Workload, secret and flake-input names: the shared path-safety rule and the rule for display
names. An error is its format and the arguments put into it.
-/
import Nixbox.Go.Strings

namespace Nixbox.Nix

/-- A user-facing message: a format (or catalog key) and its arguments. -/
structure Msg where
  format : String
  args : List String := []
  deriving DecidableEq, Repr

/-- `[a-z0-9]`. -/
def isAlnum (c : Char) : Bool := ('a' ≤ c && c ≤ 'z') || ('0' ≤ c && c ≤ '9')

/-- `^[a-z0-9]([a-z0-9-]{0,mid}[a-z0-9])?$`. -/
def nameRe (mid : Nat) (s : String) : Bool :=
  match s.toList with
  | [] => false
  | c :: cs => isAlnum c &&
    match cs.reverse with
    | [] => true
    | last :: inner => isAlnum last && inner.length ≤ mid && inner.all fun c => isAlnum c || c == '-'

/-- `ValidateName`. -/
def validateName (name : String) : Except Msg Unit :=
  if nameRe 61 name then .ok ()
  else .error ⟨"invalid workload name %q: must be 1-63 characters of [a-z0-9-], not starting or ending with -",
    [name]⟩

theorem validateName_ok {name : String} : validateName name = .ok () ↔ nameRe 61 name = true := by
  unfold validateName
  split
  · rename_i h
    simp [h]
  · rename_i h
    simp [h]

/-- The characters of a name. -/
theorem nameRe_chars {mid : Nat} {s : String} (h : nameRe mid s = true) :
    ∀ c ∈ s.toList, isAlnum c = true ∨ c = '-' := by
  unfold nameRe at h
  split at h
  · cases h
  · rename_i c cs hlist
    obtain ⟨hc, hcs⟩ := Bool.and_eq_true_iff.1 h
    intro d hd
    rw [hlist] at hd
    rcases List.mem_cons.1 hd with rfl | hd
    · exact .inl hc
    · rw [← List.mem_reverse] at hd
      split at hcs
      · rename_i hnil
        rw [hnil] at hd
        cases hd
      · rename_i last inner hsplit
        rw [hsplit] at hd
        simp only [Bool.and_eq_true, List.all_eq_true] at hcs
        rcases List.mem_cons.1 hd with rfl | hd
        · exact .inl hcs.1.1
        · simpa using hcs.2 d hd

/-- The 11-character nspawn interface limit on top of the shared check. -/
def validateContainerName (name : String) : Except Msg Unit :=
  match validateName name with
  | .error e => .error e
  | .ok () =>
    if name.utf8ByteSize > 11 then
      .error ⟨"invalid container name %q: nixos-containers are limited to 11 characters (systemd-nspawn ve-<name> interface limit)",
        [name]⟩
    else .ok ()

/-- `maxDisplayName`. -/
def maxDisplayName : Nat := 60

/-- `ValidateDisplayName`. -/
def validateDisplayName (name : String) : Except Msg Unit :=
  if name.utf8ByteSize > maxDisplayName then
    .error ⟨"display name too long: %d characters (max %d)", [toString name.utf8ByteSize, toString maxDisplayName]⟩
  else if name.toList.any fun r => r == '\n' || r == '\r' || r == '\t' || r.toNat < 0x20 then
    .error ⟨"display name must not contain control characters", []⟩
  else .ok ()

end Nixbox.Nix
