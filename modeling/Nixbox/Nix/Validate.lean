/-
How the diagnostics of nix are cleaned for display: the loop over the lines against the lines that say
something, of which eight fit.
-/
import Nixbox.Go.Split

namespace Nixbox.Nix

open Go

/-! ## Definitions -/

/-- The loop over the lines, `keep` collected so far. -/
def keepLines (keep : List String) : List String → List String
  | [] => keep
  | line :: lines =>
    let trimmed := trimSpace line
    if trimmed = "" ∨ hasPrefix trimmed "at «" then keepLines keep lines
    else
      let keep := keep ++ [line]
      if 8 ≤ keep.length then keep ++ ["…"] else keepLines keep lines

/-- `cleanNixError`. -/
def cleanNixError (out : String) : String :=
  match keepLines [] (split (trimSpace out) "\n") with
  | [] => "nix reported an unknown error"
  | keep => "\n".intercalate keep

example : cleanNixError "boom\n\n at «string»:1:1:\n  more\n" = "boom\n  more" := by
  decide +kernel

/-- Neither blank nor the location of a trace. -/
def isDetail (line : String) : Bool := !(trimSpace line == "" || hasPrefix (trimSpace line) "at «")

/-- The lines of a diagnostic that say something. -/
def detailLines (out : String) : List String := (split (trimSpace out) "\n").filter isDetail

/-- What is to be shown: the first eight of these lines, and a mark if there are more. -/
def Cleaned (out text : String) : Prop :=
  text = if detailLines out = [] then "nix reported an unknown error"
    else "\n".intercalate ((detailLines out).take 8 ++ if 8 < (detailLines out).length then ["…"] else [])

instance (out text : String) : Decidable (Cleaned out text) := inferInstanceAs (Decidable (_ = _))

/-! ## The lines that are kept -/

section Keeping

variable {keep lines : List String} {line out : String}

theorem isDetail_iff :
    isDetail line = true ↔ ¬ (trimSpace line = "" ∨ hasPrefix (trimSpace line) "at «" = true) := by
  rw [isDetail, Bool.not_eq_true', Bool.eq_false_iff, ne_eq, Bool.or_eq_true, beq_iff_eq]

/-- The loop stops behind the eighth line, with the mark, whether or not there is a ninth. -/
theorem keepLines_eq (h : keep.length < 8) : keepLines keep lines =
    (keep ++ lines.filter isDetail).take 8 ++ if 8 ≤ (keep ++ lines.filter isDetail).length then ["…"] else [] := by
  induction lines generalizing keep with
  | nil =>
    rw [List.filter_nil, List.append_nil, if_neg (Nat.not_le.2 h), List.append_nil,
      List.take_of_length_le (Nat.le_of_lt h)]
    rfl
  | cons line lines ih =>
    rw [keepLines, List.filter_cons]
    by_cases hnoise : trimSpace line = "" ∨ hasPrefix (trimSpace line) "at «" = true
    · rw [if_pos hnoise, if_neg fun hdetail => isDetail_iff.1 hdetail hnoise]
      exact ih h
    · have happend : keep ++ line :: lines.filter isDetail = (keep ++ [line]) ++ lines.filter isDetail :=
        List.append_cons ..
      rw [if_neg hnoise, if_pos (isDetail_iff.2 hnoise), happend]
      by_cases hfull : 8 ≤ (keep ++ [line]).length
      · have hlen : (keep ++ [line]).length = 8 := by
          rw [List.length_append, List.length_singleton] at hfull ⊢
          omega
        have hall : 8 ≤ ((keep ++ [line]) ++ lines.filter isDetail).length := by
          rw [List.length_append]
          exact Nat.le_trans hfull (Nat.le_add_right ..)
        rw [if_pos hfull, if_pos hall, List.take_left' hlen]
      · rw [if_neg hfull]
        exact ih (Nat.not_le.1 hfull)

theorem keepLines_split : keepLines [] (split (trimSpace out) "\n") =
    (detailLines out).take 8 ++ if 8 ≤ (detailLines out).length then ["…"] else [] := by
  have hnil : ([] : List String).length < 8 := Nat.zero_lt_succ 7
  rw [keepLines_eq hnil, List.nil_append, detailLines]

theorem cleanNixError_nil (h : detailLines out = []) : cleanNixError out = "nix reported an unknown error" := by
  rw [cleanNixError, keepLines_split, h]
  rfl

theorem cleanNixError_cons (h : detailLines out ≠ []) : cleanNixError out =
    "\n".intercalate ((detailLines out).take 8 ++ if 8 ≤ (detailLines out).length then ["…"] else []) := by
  rw [cleanNixError, keepLines_split]
  split
  · rename_i hnil
    exact absurd ((List.take_eq_nil_iff.1 (List.append_eq_nil_iff.1 hnil).1).resolve_left (by decide)) h
  · rfl

/-- A line more makes the text longer. -/
theorem intercalate_concat_ne (h : lines ≠ []) : "\n".intercalate (lines ++ [line]) ≠ "\n".intercalate lines := by
  intro heq
  rw [String.intercalate_append_of_ne_nil h (List.cons_ne_nil _ _), String.intercalate_singleton] at heq
  have hlen := congrArg String.length heq
  rw [String.length_append, String.length_append] at hlen
  have hone : "\n".length = 1 := rfl
  omega

/-- The mark is right unless there are exactly eight lines. -/
theorem cleanNixError_cleaned : Cleaned out (cleanNixError out) ↔ (detailLines out).length ≠ 8 := by
  unfold Cleaned
  by_cases hnil : detailLines out = []
  · rw [if_pos hnil, cleanNixError_nil hnil, hnil]
    exact ⟨fun _ => by decide, fun _ => rfl⟩
  · rw [if_neg hnil, cleanNixError_cons hnil]
    constructor
    · intro heq hlen
      rw [hlen, if_pos (Nat.le_refl 8), if_neg (Nat.lt_irrefl 8), List.append_nil,
        List.take_of_length_le (Nat.le_of_eq hlen)] at heq
      exact intercalate_concat_ne hnil heq
    · intro hlen
      have hiff : 8 ≤ (detailLines out).length ↔ 8 < (detailLines out).length :=
        ⟨fun h => Nat.lt_of_le_of_ne h hlen.symm, Nat.le_of_lt⟩
      rw [if_congr hiff rfl rfl]

/-- Eight lines, none of them left out. -/
theorem cleanNixError_marks : ¬ ∀ out, Cleaned out (cleanNixError out) := by
  intro h
  have hfits := h "error: boom\nat a.nix:3:1:\n1|\n2|\n3|x\n|^\n4|\n5|"
  revert hfits
  decide +kernel

end Keeping

end Nixbox.Nix
