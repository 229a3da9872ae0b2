/-
The systemd units of workloads: which two workloads of any types share one, and which units the
commands that drive a workload name.
-/
import Nixbox.Nix.Types

namespace Nixbox.Machine

open Nix

/-- A workload with its type. -/
structure Ref where
  type : WorkloadType
  name : String

namespace Ref

/-- The unit of a workload. -/
def unit (r : Ref) : String := r.type.unitName r.name

/-- The type is registered and accepts the name. -/
structure Accepted (r : Ref) : Prop where
  type : r.type ∈ registeredTypes
  name : r.type.validateName r.name = .ok ()

/-- A host service named after the unit of an OCI container. -/
structure Shadows (a b : Ref) : Prop where
  host : a.type = hostService
  oci : b.type = ociContainer
  name : a.name = "podman-" ++ b.name

end Ref

/-- No workload of the list is a host service named after the unit of another. -/
def Apart (refs : List Ref) : Prop := ∀ a ∈ refs, ∀ b ∈ refs, ¬a.Shadows b

/-! ## Commands -/

/-- `verb`: the command that drives the unit of a workload. -/
def verb (verb : String) (wt : WorkloadType) (name : String) : List String := ["systemctl", verb, wt.unitName name]

/-- The command of a lifecycle request, for the verbs it knows. -/
def handleWorkloadLifecycle (v : String) (r : Ref) : Option (List String) :=
  if v = "start" ∨ v = "stop" ∨ v = "restart" then some (verb v r.type r.name) else none

/-- The stop that begins the job of a destroy request. -/
def destroyStop (r : Ref) : List String := ["systemctl", "stop", r.type.unitName r.name]

/-- No command that drives a workload of the list names the unit of another. -/
def StopsOwn (refs : List Ref) : Prop := ∀ a ∈ refs, ∀ b ∈ refs, a.name ≠ b.name →
  b.unit ∉ destroyStop a ∧ ∀ v cmd, handleWorkloadLifecycle v a = some cmd → b.unit ∉ cmd

/-! ## Shared units -/

section Units

variable {a b r : Ref} {refs : List Ref}

theorem Ref.Accepted.cases (h : r.Accepted) :
    r.type = nixosContainer ∨ r.type = ociContainer ∨ r.type = hostService := by
  have htype := h.type
  simpa [registeredTypes] using htype

/-- Every type has the shared rule for names. -/
theorem Ref.Accepted.valid (h : r.Accepted) : validateName r.name = .ok () := by
  have hname := h.name
  rcases h.cases with ht | ht | ht
  · rw [ht] at hname
    unfold nixosContainer validateContainerName at hname
    dsimp only at hname
    split at hname
    · cases hname
    · rename_i hok
      exact hok
  all_goals
    rw [ht] at hname
    exact hname

theorem Ref.Accepted.chars (h : r.Accepted) : ∀ c ∈ r.name.toList, isAlnum c = true ∨ c = '-' :=
  nameRe_chars (validateName_ok.1 h.valid)

theorem Ref.Accepted.name_ne_empty (h : r.Accepted) : r.name ≠ "" := by
  intro heq
  have hvalid := h.valid
  rw [heq] at hvalid
  exact absurd (validateName_ok.1 hvalid) (by decide)

theorem unit_container (h : r.type = nixosContainer) : r.unit = "container@" ++ r.name ++ ".service" := by
  unfold Ref.unit
  rw [h]
  rfl

theorem unit_oci (h : r.type = ociContainer) : r.unit = "podman-" ++ r.name ++ ".service" := by
  unfold Ref.unit
  rw [h]
  rfl

theorem unit_host (h : r.type = hostService) : r.unit = r.name ++ ".service" := by
  unfold Ref.unit
  rw [h]
  rfl

theorem at_mem_unit (h : r.Accepted) : '@' ∈ r.unit.toList ↔ r.type = nixosContainer := by
  have hat : '@' ∉ r.name.toList := fun hmem => absurd (h.chars _ hmem) (by decide)
  rcases h.cases with ht | ht | ht
  · rw [unit_container ht]
    simp [ht]
  · rw [unit_oci ht, ht]
    refine iff_of_false ?_ fun heq => absurd (congrArg WorkloadType.id heq) (by decide)
    simp [hat]
  · rw [unit_host ht, ht]
    refine iff_of_false ?_ fun heq => absurd (congrArg WorkloadType.id heq) (by decide)
    simp [hat]

/-- Two workloads share a unit only if they share the name, or one is a host service named after the other's unit. -/
theorem unit_eq (ha : a.Accepted) (hb : b.Accepted) (h : a.unit = b.unit) :
    a.name = b.name ∨ a.Shadows b ∨ b.Shadows a := by
  by_cases hc : a.type = nixosContainer
  · have hc' : b.type = nixosContainer := (at_mem_unit hb).1 (h ▸ (at_mem_unit ha).2 hc)
    rw [unit_container hc, unit_container hc', String.append_left_inj, String.append_right_inj] at h
    exact .inl h
  · have hc' : b.type ≠ nixosContainer := fun hc' => hc ((at_mem_unit ha).1 (h ▸ (at_mem_unit hb).2 hc'))
    rcases ha.cases.resolve_left hc with hta | hta <;> rcases hb.cases.resolve_left hc' with htb | htb
    · rw [unit_oci hta, unit_oci htb, String.append_left_inj, String.append_right_inj] at h
      exact .inl h
    · rw [unit_oci hta, unit_host htb, String.append_left_inj] at h
      exact .inr (.inr ⟨htb, hta, h.symm⟩)
    · rw [unit_host hta, unit_oci htb, String.append_left_inj] at h
      exact .inr (.inl ⟨hta, htb, h⟩)
    · rw [unit_host hta, unit_host htb, String.append_left_inj] at h
      exact .inl h

theorem Ref.Shadows.unit_eq (h : a.Shadows b) : a.unit = b.unit := by
  rw [unit_host h.host, unit_oci h.oci, h.name]

theorem Ref.Shadows.name_ne (h : a.Shadows b) : a.name ≠ b.name := by
  intro heq
  have hlen := congrArg String.length (heq.symm.trans h.name)
  simp at hlen

/-- The units of a list of workloads differ exactly if none shadows another. -/
theorem nodup_units_iff (haccepted : ∀ r ∈ refs, r.Accepted) (hnames : (refs.map (·.name)).Nodup) :
    (refs.map Ref.unit).Nodup ↔ Apart refs := by
  have hinj : ∀ a ∈ refs, ∀ b ∈ refs, a.name = b.name → a = b :=
    fun a ha b hb h => List.inj_on_of_nodup_map hnames ha hb h
  constructor
  · intro hunits a ha b hb hshadows
    have heq : a = b := List.inj_on_of_nodup_map hunits ha hb hshadows.unit_eq
    exact hshadows.name_ne (congrArg Ref.name heq)
  · intro hapart
    refine (List.Nodup.of_map _ hnames).map_on fun a ha b hb h => ?_
    rcases unit_eq (haccepted a ha) (haccepted b hb) h with hname | hshadows | hshadows
    · exact hinj a ha b hb hname
    · exact absurd hshadows (hapart a ha b hb)
    · exact absurd hshadows (hapart b hb a ha)

theorem dot_mem_unit (h : r.Accepted) : '.' ∈ r.unit.toList := by
  rcases h.cases with ht | ht | ht
  · rw [unit_container ht]
    simp
  · rw [unit_oci ht]
    simp
  · rw [unit_host ht]
    simp

/-- A command on the unit of `a` names the unit of `b` only if they are one. -/
theorem unit_mem_command (hb : b.Accepted) {v : String} (hv : '.' ∉ v.toList) :
    b.unit ∈ ["systemctl", v, a.unit] ↔ a.unit = b.unit := by
  have hne : ∀ w : String, '.' ∉ w.toList → b.unit ≠ w := fun w hw heq => hw (heq ▸ dot_mem_unit hb)
  simp [hne "systemctl" (by decide), hne v hv, eq_comm]

theorem stopsOwn_iff (haccepted : ∀ r ∈ refs, r.Accepted) : StopsOwn refs ↔ Apart refs := by
  constructor
  · intro hown a ha b hb hshadows
    refine (hown a ha b hb hshadows.name_ne).1 ?_
    exact (unit_mem_command (haccepted b hb) (by decide)).2 hshadows.unit_eq
  · intro hapart a ha b hb hne
    have hunit : a.unit ≠ b.unit := fun heq => by
      rcases unit_eq (haccepted a ha) (haccepted b hb) heq with hname | hshadows | hshadows
      · exact hne hname
      · exact hapart a ha b hb hshadows
      · exact hapart b hb a ha hshadows
    refine ⟨fun hmem => hunit ((unit_mem_command (haccepted b hb) (by decide)).1 hmem), fun v cmd hcmd hmem => ?_⟩
    unfold handleWorkloadLifecycle at hcmd
    split at hcmd
    · rename_i hv
      cases hcmd
      refine hunit ((unit_mem_command (haccepted b hb) ?_).1 hmem)
      rcases hv with rfl | rfl | rfl <;> decide
    · cases hcmd

end Units

end Nixbox.Machine
