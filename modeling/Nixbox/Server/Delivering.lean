/-
Which workloads index.nix delivers a secret into, read off the rows it is generated from: the mounts
of the secret into enabled workloads, each under the key of its type.
-/
import Nixbox.Server.Regenerate
import Nixbox.Store.Mounts

namespace Nixbox

open Effect Prog Store Keyed Server
open Nix hiding FlakeInput

/-! ## Definitions -/

/-- The list of `key` has the workload. -/
def Delivers (mounts : List (String × List String)) (key workload : String) : Prop :=
  ∃ m ∈ mounts, m.1 = key ∧ workload ∈ m.2

/-- The mounts of `secret` in index.nix list `workload` under `key`. -/
def Nix.IndexDoc.delivers (d : IndexDoc) (secret key workload : String) : Prop :=
  ∃ e ∈ d.secrets, e.name = secret ∧ Delivers e.mounts key workload

/-- Workloads of the type have secrets delivered, under the key. -/
def Deliverable (typ key : String) : Prop :=
  ∃ wt, lookup typ = some wt ∧ wt.indexKey = key ∧ wt.supportsSecretMounts = true

/-! ## Lists by key -/

section Lists

variable {key name k n : String} {l : List (String × List String)}

theorem delivers_cons {m : String × List String} :
    Delivers (m :: l) k n ↔ (m.1 = k ∧ n ∈ m.2) ∨ Delivers l k n := by
  unfold Delivers
  simp only [List.mem_cons, exists_eq_or_imp]

theorem delivers_addMount : Delivers (addMount key name l) k n ↔ (key = k ∧ name = n) ∨ Delivers l k n := by
  induction l with
  | nil =>
    unfold addMount
    rw [delivers_cons, List.mem_singleton]
    constructor
    · rintro (⟨hk, hn⟩ | h)
      · exact .inl ⟨hk, hn.symm⟩
      · exact .inr h
    · rintro (⟨hk, hn⟩ | h)
      · exact .inl ⟨hk, hn.symm⟩
      · exact .inr h
  | cons m l ih =>
    obtain ⟨k', names⟩ := m
    unfold addMount
    split
    · rename_i hk
      subst hk
      rw [delivers_cons, delivers_cons, List.mem_append, List.mem_singleton]
      constructor
      · rintro (⟨hk, hn | hn⟩ | h)
        · exact .inr (.inl ⟨hk, hn⟩)
        · exact .inl ⟨hk, hn.symm⟩
        · exact .inr (.inr h)
      · rintro (⟨hk, hn⟩ | ⟨hk, hn⟩ | h)
        · exact .inl ⟨hk, .inr hn.symm⟩
        · exact .inl ⟨hk, .inl hn⟩
        · exact .inr h
    · rw [delivers_cons, delivers_cons, ih]
      exact or_left_comm

theorem delivers_foldl {ds : List (String × String)} :
    Delivers (ds.foldl (fun m d => addMount d.1 d.2 m) l) k n ↔ (k, n) ∈ ds ∨ Delivers l k n := by
  induction ds generalizing l with
  | nil => simp
  | cons d ds ih =>
    obtain ⟨k', n'⟩ := d
    rw [List.foldl_cons, ih, delivers_addMount, List.mem_cons, Prod.mk.injEq, or_assoc]
    constructor
    · rintro (h | ⟨rfl, rfl⟩ | h)
      · exact .inr (.inl h)
      · exact .inl ⟨rfl, rfl⟩
      · exact .inr (.inr h)
    · rintro (⟨rfl, rfl⟩ | h | h)
      · exact .inr (.inl ⟨rfl, rfl⟩)
      · exact .inl h
      · exact .inr (.inr h)

/-- Sorting and dropping empty lists changes no delivery. -/
theorem delivers_normalize {s : IndexSecret} : Delivers (normalizeSecret s).mounts k n ↔ Delivers s.mounts k n := by
  constructor
  · rintro ⟨m, hm, rfl, hn⟩
    obtain ⟨m', hm', rfl⟩ := List.mem_map.1 hm
    have hin := (List.mem_filter.1 ((List.mem_insertionSort ..).1 hm')).1
    exact ⟨m', hin, rfl, (List.mem_insertionSort ..).1 hn⟩
  · rintro ⟨m, hm, rfl, hn⟩
    have hne : (!m.2.isEmpty) = true := by
      rw [Bool.not_eq_true', List.isEmpty_eq_false_iff]
      exact List.ne_nil_of_mem hn
    refine ⟨(m.1, sortStrings m.2), List.mem_map.2 ⟨m, ?_, rfl⟩, rfl, (List.mem_insertionSort ..).2 hn⟩
    exact (List.mem_insertionSort ..).2 (List.mem_filter.2 ⟨hm, hne⟩)

end Lists

/-! ## The index of the rows -/

section Rows

variable {db : Db}

theorem delivery_eq_some {wid : ID} {key name : String} : delivery db.workloadList wid = some (key, name) ↔
    ∃ w ∈ db.workloads, w.id = wid ∧ w.name = name ∧ w.enabled = true ∧ Deliverable w.type key := by
  unfold delivery Deliverable
  simp only [Option.bind_eq_bind, Option.bind_eq_some_iff]
  constructor
  · rintro ⟨w, hw, wt, hwt, h⟩
    split at h
    · rename_i hen
      cases h
      obtain ⟨hen, hsup⟩ := Bool.and_eq_true_iff.1 hen
      refine ⟨w, Db.mem_workloadList.1 (List.mem_of_find?_eq_some hw), by simpa using List.find?_some hw,
        rfl, hen, wt, ?_⟩
      exact ⟨hwt, rfl, hsup⟩
    · cases h
  · rintro ⟨w, hw, rfl, rfl, hen, wt, hwt, rfl, hsup⟩
    -- ids are unique, so the first workload of the id is this one
    have hfind : db.workloadList.find? (fun x => x.id == w.id) = some w := by
      cases hf : db.workloadList.find? (fun x => x.id == w.id) with
      | none => exact absurd (beq_self_eq_true w.id) (List.find?_eq_none.1 hf w (Db.mem_workloadList.2 hw))
      | some v =>
        have hid : v.id = w.id := by simpa using List.find?_some hf
        rw [Table.eq_of_rowid (Db.mem_workloadList.1 (List.mem_of_find?_eq_some hf)) hw hid]
    exact ⟨w, hfind, wt, hwt, by rw [hen, hsup]; rfl⟩

/-- index.nix delivers by the mounts, the flags and the types of the rows. -/
theorem index_delivers {secret key workload : String} : db.index.delivers secret key workload ↔
    ∃ x ∈ db.secrets, x.name = secret ∧ ∃ w ∈ db.workloads, w.name = workload ∧
      w.enabled = true ∧ Deliverable w.type key ∧ ⟨x.id, w.id⟩ ∈ db.secretMounts := by
  constructor
  · rintro ⟨e, he, rfl, hdel⟩
    obtain ⟨sec, hsec, rfl⟩ := List.mem_map.1 he
    obtain ⟨y, hy, rfl⟩ := List.mem_map.1 ((List.mem_insertionSort ..).1 hsec)
    obtain ⟨x, hx, rfl⟩ := List.mem_map.1 hy
    rcases delivers_foldl.1 (delivers_normalize.1 hdel) with hin | ⟨_, hm, -⟩
    · obtain ⟨wid, hwid, hdelivery⟩ := List.mem_filterMap.1 hin
      obtain ⟨w, hw, rfl, hname, hen, hty⟩ := delivery_eq_some.1 hdelivery
      exact ⟨x, Db.mem_secretRows.1 hx, rfl, w, hw, hname, hen, hty, Db.mem_mountsOf.1 hwid⟩
    · exact nomatch hm
  · rintro ⟨x, hx, rfl, w, hw, rfl, hen, hty, hmount⟩
    have hin : ({ x with workloadIDs := db.mountsOf x.id } : Secret) ∈ db.secretList :=
      List.mem_map.2 ⟨x, Db.mem_secretRows.2 hx, rfl⟩
    refine ⟨normalizeSecret (indexSecret db.workloadList { x with workloadIDs := db.mountsOf x.id }), ?_, rfl, ?_⟩
    · exact List.mem_map.2 ⟨_, (List.mem_insertionSort ..).2 (List.mem_map.2 ⟨_, hin, rfl⟩), rfl⟩
    · refine delivers_normalize.2
        (delivers_foldl.2 (.inl (List.mem_filterMap.2 ⟨w.id, Db.mem_mountsOf.2 hmount, ?_⟩)))
      exact delivery_eq_some.2 ⟨w, hw, rfl, rfl, hen, hty⟩

end Rows

end Nixbox
