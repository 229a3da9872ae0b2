/-
Writing the state flake: the generated files, a workload's directory, the ciphertext files and
their pruning.
-/
import Nixbox.Store.Calls

namespace Nixbox.Nix

open Effect Prog Directory

/-! ## The functions -/

/-- `WriteIndex`. -/
def writeIndex (entries : List IndexEntry) (secrets : List IndexSecret) : Call Unit :=
  call (.writeIndex (indexDoc entries secrets))

/-- `WriteFlake`. -/
def writeFlake (inputs : List FlakeInput) (withAgenix : Bool) : Call Unit :=
  call (.writeFlake (flakeDoc inputs withAgenix))

/-- A function refused by the path-safety rule before it touches the disk. -/
def checked (name : String) (x : Call Unit) : Call Unit :=
  match validateName name with
  | .error _ => throw .failed
  | .ok () => x

/-- `WriteWorkload`. -/
def writeWorkload (name content : String) : Call Unit := checked name (call (.writeWorkload name content))

/-- `secrets/<name>.age`. -/
def secretFile (name : String) : String := name ++ ".age"

/-- `WriteSecret`. -/
def writeSecret (name ciphertext : String) : Call Unit :=
  checked name (call (.writeSecret (secretFile name) ciphertext))

/-- A regular .age file of no secret in `keep`. -/
def orphan (keep : List String) (e : String × SecretsEntry) : Bool :=
  e.2 != .dir && Go.hasSuffix e.1 ".age" && !(keep.map secretFile).contains e.1

/-- `PruneSecrets`: the files of `secrets/` that belong to none of the names. -/
def pruneSecrets (keep : List String) : Call Unit := do
  let entries ← call .readSecretsDir
  let _ ← forEach (fun e => call (.removeSecretFile e.1)) (entries.filter (orphan keep))
  return ()

/-! ## Pruning -/

/-- `secrets/` without the orphans. -/
def pruned (keep : List String) (d : Dir SecretsEntry) : Dir SecretsEntry :=
  (d.entries.filter (orphan keep)).foldl (fun d e => d.remove e.1) d

/-- Removing files one by one ends with a part of them removed, all of them unless one failed. -/
theorem removeEach_ends (l : List (String × SecretsEntry)) (s : State) :
    Ends (fun r s' => ∃ removed, removed <+: l ∧ (∀ a, r = .ok a → removed = l) ∧
        s' = { s with disk.secrets := removed.foldl (fun d e => d.remove e.1) s.disk.secrets })
      (forEach (fun e => call (.removeSecretFile e.1)) l : Call (List Unit)).run s := by
  induction l generalizing s with
  | nil => exact ends_return.2 ⟨[], List.prefix_rfl, fun _ _ => rfl, rfl⟩
  | cons e l ih =>
    refine ends_exceptT_bind.2 (ends_call.2 ⟨?_, fun r hr => ?_⟩)
    · refine ends_exceptT_bind.2 ((ih _).mono fun r s' h => ?_)
      obtain ⟨removed, hpre, hall, hs'⟩ := h
      cases r with
      | ok u =>
        refine ends_return.2 ⟨e :: removed, List.cons_prefix_cons.2 ⟨rfl, hpre⟩, fun _ _ => ?_, hs'⟩
        rw [hall u rfl]
      | error x => exact ⟨e :: removed, List.cons_prefix_cons.2 ⟨rfl, hpre⟩, nofun, hs'⟩
    · cases hr
      exact ⟨[], List.nil_prefix, nofun, rfl⟩

/-- Pruning only removes orphans, all of them unless a call fails. -/
theorem pruneSecrets_ends (keep : List String) (s : State) :
    Ends (fun r s' => ∃ removed, removed <+: s.disk.secrets.entries.filter (orphan keep) ∧
        (r = .ok () → s'.disk.secrets = pruned keep s.disk.secrets) ∧
        s' = { s with disk.secrets := removed.foldl (fun d e => d.remove e.1) s.disk.secrets })
      (pruneSecrets keep).run s := by
  refine ends_exceptT_bind.2 (ends_call.2 ⟨?_, fun r hr => ?_⟩)
  · refine ends_exceptT_bind.2 ((removeEach_ends _ s).mono fun r s' h => ?_)
    obtain ⟨removed, hpre, hall, hs'⟩ := h
    cases r with
    | ok u =>
      refine ends_return.2 ⟨removed, hpre, fun _ => ?_, hs'⟩
      rw [hs', hall u rfl]; rfl
    | error x => exact ⟨removed, hpre, nofun, hs'⟩
  · cases hr
    exact ⟨[], List.nil_prefix, nofun, rfl⟩

theorem get?_foldl_remove (l : List (String × SecretsEntry)) (d : Dir SecretsEntry) (n : String) :
    (l.foldl (fun d e => d.remove e.1) d).get? n = if n ∈ l.map Prod.fst then none else d.get? n := by
  induction l generalizing d with
  | nil => rfl
  | cons e l ih =>
    rw [List.foldl_cons, ih, List.map_cons]
    by_cases hn : n = e.1
    · subst hn
      rw [Dir.get?_remove_self, if_pos (List.mem_cons_self ..), ite_self]
    · rw [Dir.get?_remove_of_ne hn]
      simp only [List.mem_cons, hn, false_or]

/-- Pruning leaves the directory as it is exactly when it holds no orphan. -/
theorem pruned_eq_self {keep : List String} {d : Dir SecretsEntry} :
    pruned keep d = d ↔ ∀ e ∈ d.entries, orphan keep e = false := by
  constructor
  · intro h e he
    by_contra ho
    have hmem : e ∈ d.entries.filter (orphan keep) := List.mem_filter.2 ⟨he, by simpa using ho⟩
    have hgone : (pruned keep d).get? e.1 = none := by
      unfold pruned
      rw [get?_foldl_remove, if_pos (List.mem_map.2 ⟨e, hmem, rfl⟩)]
    rw [h, Dir.get?_of_mem he] at hgone
    cases hgone
  · intro h
    unfold pruned
    rw [List.filter_eq_nil_iff.2 fun e he => by simp [h e he]]
    rfl

end Nixbox.Nix
