/-
The mounts of one secret under the statements that write those of another, when replacing mounts
succeeds, and what an edit of the mounts of a secret comes to.
-/
import Nixbox.Store.Invariant

namespace Nixbox.Store

open Keyed

namespace Db

variable {db db' : Db} {sid wid id : ID} {wids : List ID}

theorem mountsOf_congr (h : db'.secretMounts.filter (fun m => m.secretID == id) =
    db.secretMounts.filter fun m => m.secretID == id) : db'.mountsOf id = db.mountsOf id := by
  unfold mountsOf
  rw [h]

theorem mem_mountsOf : wid ∈ db.mountsOf sid ↔ ⟨sid, wid⟩ ∈ db.secretMounts := by
  unfold mountsOf
  rw [List.mem_insertionSort, List.mem_map]
  constructor
  · rintro ⟨m, hm, rfl⟩
    obtain ⟨hin, hsid⟩ := List.mem_filter.1 hm
    obtain rfl : m.secretID = sid := by simpa using hsid
    exact hin
  · intro h
    exact ⟨⟨sid, wid⟩, List.mem_filter.2 ⟨h, by simp⟩, rfl⟩

/-- Dropping mounts of other secrets. -/
theorem mountsOf_filter {p : SecretMount → Bool} (hp : ∀ m, m.secretID = id → p m = true) :
    Db.mountsOf { db with secretMounts := db.secretMounts.filter p } id = db.mountsOf id := by
  refine mountsOf_congr ?_
  show (db.secretMounts.filter p).filter _ = _
  rw [List.filter_filter]
  refine List.filter_congr fun m _ => ?_
  by_cases hm : m.secretID = id
  · simp [hm, hp m hm]
  · simp [hm]

theorem insertMount_mountsOf (h : db.insertMount sid wid = .ok db') (hne : id ≠ sid) :
    db'.mountsOf id = db.mountsOf id := by
  unfold insertMount at h
  split at h
  · cases h
  · cases h
    refine mountsOf_congr ?_
    show (db.secretMounts ++ [(⟨sid, wid⟩ : SecretMount)]).filter _ = _
    rw [List.filter_append, List.filter_cons_of_neg (by simpa using Ne.symm hne), List.filter_nil, List.append_nil]

theorem insertMounts_mountsOf (h : wids.foldlM (fun db wid => db.insertMount sid wid) db = .ok db') (hne : id ≠ sid) :
    db'.mountsOf id = db.mountsOf id := by
  induction wids generalizing db with
  | nil => cases h; rfl
  | cons wid wids ih =>
    rw [List.foldlM_cons] at h
    cases hc : db.insertMount sid wid with
    | error e => rw [hc] at h; cases h
    | ok c =>
      rw [hc] at h
      rw [ih h, insertMount_mountsOf hc hne]

theorem replaceMounts_mountsOf (h : db.replaceMounts sid wids = .ok db') (hne : id ≠ sid) :
    db'.mountsOf id = db.mountsOf id := by
  unfold replaceMounts at h
  rw [insertMounts_mountsOf h hne]
  exact mountsOf_filter fun m hm => by simpa [hm] using hne

theorem createSecret_mountsOf {name owner group mode : String} {now : Time} {a : ID}
    (h : db.createSecret name owner group mode wids now = .ok (a, db')) (hne : id ≠ db.secrets.nextId) :
    db'.mountsOf id = db.mountsOf id := by
  obtain ⟨-, rfl, hrep⟩ := createSecret_ok h
  have hsame := replaceMounts_mountsOf hrep hne
  exact hsame

theorem insertMountOrIgnore_mountsOf {n : Nat} (h : db.insertMountOrIgnore sid wid = .ok (n, db')) :
    (n = 0 ∧ db' = db) ∨ (n = 1 ∧ ∀ id, id ≠ sid → db'.mountsOf id = db.mountsOf id) := by
  unfold insertMountOrIgnore at h
  split at h
  · cases h
    exact .inl ⟨rfl, rfl⟩
  · split at h
    · cases h
    · rename_i hins
      cases h
      exact .inr ⟨rfl, fun id hne => insertMount_mountsOf hins hne⟩

theorem deleteMount_mountsOf (db : Db) (sid wid : ID) :
    ((db.deleteMount sid wid).1 = 0 ∧ (db.deleteMount sid wid).2 = db) ∨
      ((db.deleteMount sid wid).1 ≠ 0 ∧ ∀ id, id ≠ sid →
        (db.deleteMount sid wid).2.mountsOf id = db.mountsOf id) := by
  by_cases hc : db.secretMounts.count ⟨sid, wid⟩ = 0
  · refine .inl ⟨hc, ?_⟩
    have hout : ⟨sid, wid⟩ ∉ db.secretMounts := List.count_eq_zero.1 hc
    have hsame : db.secretMounts.filter (fun m => m != ⟨sid, wid⟩) = db.secretMounts := by
      refine List.filter_eq_self.2 fun m hm => ?_
      rw [bne_iff_ne]
      rintro rfl
      exact hout hm
    show { db with secretMounts := db.secretMounts.filter fun m => m != ⟨sid, wid⟩ } = db
    rw [hsame]
  · refine .inr ⟨hc, fun id hne => mountsOf_filter fun m hm => ?_⟩
    rw [bne_iff_ne]
    rintro rfl
    exact hne hm.symm

/-- Mounts into workloads that exist, none twice, can be inserted. -/
theorem insertMounts_ok (hsid : (db.secrets.find? sid).isSome) (hwids : ∀ w ∈ wids, (db.workloads.find? w).isSome)
    (hnew : ∀ w ∈ wids, ⟨sid, w⟩ ∉ db.secretMounts) (hnodup : wids.Nodup) :
    ∃ db', wids.foldlM (fun db wid => db.insertMount sid wid) db = .ok db' := by
  induction wids generalizing db with
  | nil => exact ⟨db, rfl⟩
  | cons wid wids ih =>
    obtain ⟨hout, hnodup⟩ := List.nodup_cons.1 hnodup
    have hins : db.insertMount sid wid = .ok { db with secretMounts := db.secretMounts ++ [⟨sid, wid⟩] } := by
      unfold insertMount
      rw [if_neg]
      have hs := hsid
      have hw := hwids wid (List.mem_cons_self ..)
      have hn := hnew wid (List.mem_cons_self ..)
      rw [Option.isSome_iff_ne_none] at hs hw
      simp [hs, hw, hn]
    rw [List.foldlM_cons, hins]
    refine ih hsid (fun w hw => hwids w (List.mem_cons_of_mem _ hw)) (fun w hw hmem => ?_) hnodup
    rcases List.mem_append.1 hmem with hmem | hmem
    · exact hnew w (List.mem_cons_of_mem _ hw) hmem
    · cases List.mem_singleton.1 hmem
      exact hout hw

theorem replaceMounts_ok (hsid : (db.secrets.find? sid).isSome) (hwids : ∀ w ∈ wids, (db.workloads.find? w).isSome)
    (hnodup : wids.Nodup) : ∃ db', db.replaceMounts sid wids = .ok db' := by
  unfold replaceMounts
  refine insertMounts_ok hsid hwids (fun w _ hmem => ?_) hnodup
  simpa using (List.mem_filter.1 hmem).2

/-- Mounts that can be inserted name no workload twice. -/
theorem insertMounts_nodup (h : wids.foldlM (fun db wid => db.insertMount sid wid) db = .ok db') :
    (∀ w ∈ wids, ⟨sid, w⟩ ∉ db.secretMounts) ∧ wids.Nodup := by
  induction wids generalizing db with
  | nil => exact ⟨nofun, .nil⟩
  | cons wid wids ih =>
    rw [List.foldlM_cons] at h
    unfold insertMount at h
    split at h
    · cases h
    · rename_i hcond
      obtain ⟨hnew, hnodup⟩ := ih h
      have hout : wid ∉ wids := fun hin => hnew wid hin (List.mem_append_right _ (.head _))
      refine ⟨fun w hw => ?_, List.nodup_cons.2 ⟨hout, hnodup⟩⟩
      rcases List.mem_cons.1 hw with rfl | hw
      · intro hmem
        exact hcond (Bool.or_eq_true_iff.2 (.inr (List.contains_iff_mem.2 hmem)))
      · exact fun hmem => hnew w hw (List.mem_append_left _ hmem)

theorem updateSecret_nodup {owner group mode : String} {now : Time}
    (h : db.updateSecret sid owner group mode wids now = .ok db') : wids.Nodup :=
  (insertMounts_nodup h).2

end Db

/-! ## Edits -/

/-- An edit of the mounts of one secret: they become these, or one is added or removed. -/
inductive MountEdit
  | set (secret : ID) (workloads : List ID)
  | attach (secret workload : ID)
  | detach (secret workload : ID)
  deriving DecidableEq, Repr

namespace MountEdit

/-- The edit delivers the secret into the workload. -/
def names (ed : MountEdit) (sid wid : ID) : Bool :=
  match ed with
  | set s ws => s == sid && ws.contains wid
  | attach s w => s == sid && w == wid
  | detach .. => false

/-- The edit leaves the secret without a mount into the workload. -/
def withdraws (ed : MountEdit) (sid wid : ID) : Bool :=
  match ed with
  | set s ws => s == sid && !ws.contains wid
  | attach .. => false
  | detach s w => s == sid && w == wid

end MountEdit

namespace Db

/-- Both ends of a mount are rows. -/
def Has (db : Db) (sid wid : ID) : Prop := (db.secrets.find? sid).isSome ∧ (db.workloads.find? wid).isSome

/-- The mounts after an edit: those it names, and those there were that it does not withdraw; new ones join rows. -/
structure MountsEdited (ed : MountEdit) (db db' : Db) : Prop where
  mem : ∀ sid wid, ⟨sid, wid⟩ ∈ db'.secretMounts ↔
    ed.names sid wid = true ∨ (⟨sid, wid⟩ ∈ db.secretMounts ∧ ed.withdraws sid wid = false)
  there : ∀ sid wid, ⟨sid, wid⟩ ∈ db'.secretMounts → ⟨sid, wid⟩ ∈ db.secretMounts ∨ db'.Has sid wid

variable {db db' : Db} {sid wid : ID} {wids : List ID}

theorem insertMount_ok (h : db.insertMount sid wid = .ok db') :
    db.Has sid wid ∧ db' = { db with secretMounts := db.secretMounts ++ [⟨sid, wid⟩] } := by
  unfold insertMount at h
  split at h
  · cases h
  · rename_i hcond
    cases h
    simp only [Bool.or_eq_true, not_or, Bool.not_eq_true, Option.isNone_eq_false_iff] at hcond
    exact ⟨⟨hcond.1.1, hcond.1.2⟩, rfl⟩

theorem insertMounts_edited (h : wids.foldlM (fun db wid => db.insertMount sid wid) db = .ok db') :
    (∀ w ∈ wids, db.Has sid w) ∧
    db' = { db with secretMounts := db.secretMounts ++ wids.map fun w => ⟨sid, w⟩ } := by
  induction wids generalizing db with
  | nil =>
    cases h
    exact ⟨nofun, by simp⟩
  | cons wid wids ih =>
    rw [List.foldlM_cons] at h
    cases hc : db.insertMount sid wid with
    | error e => rw [hc] at h; cases h
    | ok c =>
      rw [hc] at h
      obtain ⟨hhas, rfl⟩ := insertMount_ok hc
      obtain ⟨hrest, rfl⟩ := ih h
      refine ⟨fun w hw => ?_, by simp⟩
      rcases List.mem_cons.1 hw with rfl | hw
      · exact hhas
      · exact hrest w hw

/-- Replacing the mounts of a secret, beside a change of its row. -/
theorem replaceMounts_edited {secrets : Table SecretRow}
    (h : replaceMounts { db with secrets := secrets } sid wids = .ok db') : MountsEdited (.set sid wids) db db' := by
  unfold replaceMounts at h
  obtain ⟨hhas, rfl⟩ := insertMounts_edited h
  -- the mounts of other secrets, and those now listed
  have hmem : ∀ i w, ⟨i, w⟩ ∈
      (db.secretMounts.filter fun m => m.secretID != sid) ++ wids.map (fun w => (⟨sid, w⟩ : SecretMount)) ↔
      (⟨i, w⟩ ∈ db.secretMounts ∧ i ≠ sid) ∨ (i = sid ∧ w ∈ wids) := by
    intro i w
    simp only [List.mem_append, List.mem_filter, List.mem_map, SecretMount.mk.injEq, bne_iff_ne, ne_eq]
    constructor
    · rintro (h | ⟨w', hw', rfl, rfl⟩)
      · exact .inl h
      · exact .inr ⟨rfl, hw'⟩
    · rintro (h | ⟨rfl, hw⟩)
      · exact .inl h
      · exact .inr ⟨w, hw, rfl, rfl⟩
  refine ⟨fun i w => (hmem i w).trans ?_, fun i w hin => ?_⟩
  · simp only [MountEdit.names, MountEdit.withdraws, Bool.and_eq_true, beq_iff_eq, List.contains_iff_mem,
      Bool.and_eq_false_iff, beq_eq_false_iff_ne, Bool.not_eq_false', ne_eq]
    constructor
    · rintro (⟨hin, hne⟩ | ⟨rfl, hw⟩)
      · exact .inr ⟨hin, .inl (Ne.symm hne)⟩
      · exact .inl ⟨rfl, hw⟩
    · rintro (⟨rfl, hw⟩ | ⟨hin, hkeep⟩)
      · exact .inr ⟨rfl, hw⟩
      · by_cases hi : i = sid
        · exact .inr ⟨hi, hkeep.resolve_left fun hne => hne hi.symm⟩
        · exact .inl ⟨hin, hi⟩
  · rcases (hmem i w).1 hin with ⟨hin, -⟩ | ⟨rfl, hw⟩
    · exact .inl hin
    · exact .inr (hhas w hw)

theorem createSecret_edited {name owner group mode : String} {now : Time} {a : ID}
    (h : db.createSecret name owner group mode wids now = .ok (a, db')) :
    MountsEdited (.set db.secrets.nextId wids) db db' := by
  obtain ⟨-, rfl, hrep⟩ := createSecret_ok h
  exact replaceMounts_edited hrep

/-- A new secret is found under its id. -/
theorem createSecret_found {name owner group mode : String} {now : Time} {a : ID}
    (h : db.createSecret name owner group mode wids now = .ok (a, db')) : (db'.secrets.find? a).isSome := by
  obtain ⟨-, rfl, hrep⟩ := createSecret_ok h
  obtain ⟨mounts, hdb⟩ := replaceMounts_frame hrep
  rw [hdb]
  dsimp only
  rw [Table.find?_insert_self]
  rfl

theorem updateSecret_edited {owner group mode : String} {now : Time}
    (h : db.updateSecret sid owner group mode wids now = .ok db') : MountsEdited (.set sid wids) db db' :=
  replaceMounts_edited h

theorem insertMountOrIgnore_edited {n : Nat} (h : db.insertMountOrIgnore sid wid = .ok (n, db')) :
    MountsEdited (.attach sid wid) db db' := by
  unfold insertMountOrIgnore at h
  split at h
  · rename_i hin
    cases h
    -- the mount is there already
    rw [List.contains_iff_mem] at hin
    refine ⟨fun i w => ?_, fun _ _ => .inl⟩
    simp only [MountEdit.names, MountEdit.withdraws, Bool.and_eq_true, beq_iff_eq, and_true]
    constructor
    · exact .inr
    · rintro (⟨rfl, rfl⟩ | hold)
      · exact hin
      · exact hold
  · split at h
    · cases h
    · rename_i hins
      cases h
      obtain ⟨hhas, rfl⟩ := insertMount_ok hins
      refine ⟨fun i w => ?_, fun i w hin => ?_⟩
      · simp only [MountEdit.names, MountEdit.withdraws, Bool.and_eq_true, beq_iff_eq, and_true, List.mem_append,
          List.mem_singleton, SecretMount.mk.injEq]
        constructor
        · rintro (hold | ⟨rfl, rfl⟩)
          · exact .inr hold
          · exact .inl ⟨rfl, rfl⟩
        · rintro (⟨rfl, rfl⟩ | hold)
          · exact .inr ⟨rfl, rfl⟩
          · exact .inl hold
      · rcases List.mem_append.1 hin with hold | hnew
        · exact .inl hold
        · cases List.mem_singleton.1 hnew
          exact .inr hhas

theorem deleteMount_edited (db : Db) (sid wid : ID) : MountsEdited (.detach sid wid) db (db.deleteMount sid wid).2 := by
  refine ⟨fun i w => ?_, fun i w hin => .inl (List.mem_filter.1 hin).1⟩
  show ⟨i, w⟩ ∈ db.secretMounts.filter (fun m => m != ⟨sid, wid⟩) ↔ _
  simp only [MountEdit.names, MountEdit.withdraws, Bool.false_eq_true, false_or, List.mem_filter, bne_iff_ne, ne_eq,
    SecretMount.mk.injEq, Bool.and_eq_false_iff, beq_eq_false_iff_ne]
  refine and_congr_right fun _ => ?_
  rw [not_and_or, eq_comm, eq_comm (a := w)]

end Db

end Nixbox.Store
