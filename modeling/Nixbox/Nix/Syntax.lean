/-
The pieces of Nix text the generated files are put together from: attribute names and string
literals.
-/
import Mathlib.Tactic.Common

namespace Nixbox.Nix

/-- `^[a-zA-Z_][a-zA-Z0-9_'-]*$`. -/
def isBareName (name : String) : Bool :=
  match name.toList with
  | [] => false
  | c :: cs => (c.isAlpha || c == '_') && cs.all fun c => c.isAlphanum || c == '_' || c == '\'' || c == '-'

/-- `nixAttrName`. -/
def nixAttrName (name : String) : String :=
  if isBareName name then name else "\"" ++ name ++ "\""

/-- The replacements of `nixStr`, at most one of which applies at each character. -/
def nixEscape : List Char → List Char
  | '\\' :: cs => '\\' :: '\\' :: nixEscape cs
  | '"' :: cs => '\\' :: '"' :: nixEscape cs
  | '\n' :: cs => '\\' :: 'n' :: nixEscape cs
  | '$' :: '\x7b' :: cs => '\\' :: '$' :: '\x7b' :: nixEscape cs
  | c :: cs => c :: nixEscape cs
  | [] => []

/-- `nixStr`. -/
def nixStr (s : String) : String := "\"" ++ String.ofList (nixEscape s.toList) ++ "\""

/-- No two names have the same text. -/
theorem nixAttrName_injective : Function.Injective nixAttrName := by
  -- a bare name does not start with a quote
  have hquote : ∀ a b : String, isBareName a = true → a ≠ "\"" ++ b ++ "\"" := by
    rintro a b ha rfl
    have hlist : ("\"" ++ b ++ "\"").toList = '"' :: (b.toList ++ ['"']) := by simp
    unfold isBareName at ha
    rw [hlist] at ha
    simp at ha
  intro a b h
  unfold nixAttrName at h
  split at h <;> split at h
  · exact h
  · rename_i ha _
    exact absurd h (hquote a b ha)
  · rename_i _ hb
    exact absurd h.symm (hquote b a hb)
  · have hlist := congrArg String.toList h
    simpa [String.toList_inj] using hlist

end Nixbox.Nix
