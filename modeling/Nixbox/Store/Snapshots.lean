/-
Histories over whole sequences of store calls: the revisions of a workload are the snapshots
committed for it, in the order they were made, whatever ids are freed and used again.
-/
import Nixbox.Store.Transactions

namespace Nixbox.Store

open Keyed Table

/-- What a save records. -/
structure Snapshot where
  content : String
  ports : String
  note : String
  createdAt : Time
  deriving DecidableEq, Repr

/-- What a revision keeps. -/
def Revision.snapshot (r : Revision) : Snapshot := ⟨r.content, r.ports, r.note, r.createdAt⟩

/-- The snapshots committed for the workload that has each id now, oldest first. -/
abbrev Made := ID → List Snapshot

/-- The snapshots after a call: a committed one begins, continues or ends a list. -/
def Attempt.record (a : Attempt) (db : Db) (made : Made) : Made :=
  if a.commits db then
    match a.op with
    | .createWorkload _ _ _ content ports =>
      Function.update made db.workloads.nextId [⟨content, ports, "created", a.now⟩]
    | .saveRevision id content ports note => Function.update made id (made id ++ [⟨content, ports, note, a.now⟩])
    | .deleteWorkload id => Function.update made id []
    | _ => made
  else made

/-- The database and the snapshots after some calls on a new database. -/
def replay (as : List Attempt) : Db × Made :=
  as.foldl (fun s a => (a.after s.1, a.record s.1 s.2)) (.empty, fun _ => [])

/-- Workload `id` is gone from `db'`, with its revisions and mounts; its jobs are detached; every
other row of `db` is there as it was, and no other. -/
structure Removed (id : ID) (db db' : Db) : Prop where
  workloads : ∀ w, w ∈ db'.workloads ↔ w ∈ db.workloads ∧ w.id ≠ id
  revisions : ∀ r, r ∈ db'.revisions ↔ r ∈ db.revisions ∧ r.workloadID ≠ id
  mounts : ∀ m, m ∈ db'.secretMounts ↔ m ∈ db.secretMounts ∧ m.workloadID ≠ id
  jobs : ∀ j, j ∈ db'.jobs ↔ (j ∈ db.jobs ∧ j.workloadID ≠ some id) ∨
    ∃ x ∈ db.jobs, x.workloadID = some id ∧ j = { x with workloadID := none }
  secrets : db'.secrets = db.secrets
  inputs : db'.flakeInputs = db.flakeInputs

/-- The histories of the rows are the snapshots made. -/
structure Recorded (db : Db) (made : Made) : Prop where
  history : ∀ id, (db.history id).map Revision.snapshot = made id
  revised : ∀ w ∈ db.workloads, made w.id ≠ []
  owned : ∀ r ∈ db.revisions, ∃ w ∈ db.workloads, w.id = r.workloadID

section Steps

open Effect Prog Sql

variable {db db' : Db} {made : Made} {id : ID} {now : Time}

/-! ## The three methods that write revisions -/

theorem deleteWorkload_removed (h : db.deleteWorkload id = .ok db') : Removed id db db' := by
  obtain rfl := Db.deleteWorkload_ok h
  refine ⟨fun w => ?_, fun r => ?_, fun m => ?_, fun j => ?_, rfl, rfl⟩
  · simp [mem_deleteWhere]
  · simp [mem_deleteWhere]
  · simp [List.mem_filter]
  · rw [mem_mapRows]
    constructor
    · rintro ⟨x, hx, rfl⟩
      split
      · rename_i hid
        exact .inr ⟨x, hx, hid, rfl⟩
      · rename_i hid
        exact .inl ⟨hx, hid⟩
    · rintro (⟨hj, hid⟩ | ⟨x, hx, hid, rfl⟩)
      · exact ⟨j, hj, if_neg hid⟩
      · exact ⟨x, hx, if_pos hid⟩

theorem recorded_create {name displayName typ content ports : String} (hr : Recorded db made)
    (h : db.createWorkload name displayName typ content ports now = .ok (id, db')) :
    Recorded db' (Function.update made db.workloads.nextId [⟨content, ports, "created", now⟩]) := by
  obtain ⟨rfl, hhist, hrows⟩ := Db.createWorkload_history h
  -- the new id has no revisions yet
  have hnew : db.history db.workloads.nextId = [] := by
    refine List.eq_nil_iff_forall_not_mem.2 fun r hr' => ?_
    obtain ⟨hr', hid⟩ := Db.mem_history.1 hr'
    obtain ⟨w, hw, hwid⟩ := hr.owned r hr'
    exact absurd (hwid.trans hid) (Int.ne_of_lt (rowid_lt_nextId hw))
  refine ⟨fun wid => ?_, fun w hw => ?_, fun r hr' => ?_⟩
  · rw [hhist]
    by_cases hid : db.workloads.nextId = wid
    · subst hid
      rw [hnew, if_pos rfl, Function.update_self]
      rfl
    · rw [if_neg hid, List.append_nil, Function.update_of_ne (Ne.symm hid)]
      exact hr.history wid
  · rcases (hrows w).1 hw with hw | rfl
    · have hlt : w.id < db.workloads.nextId := rowid_lt_nextId hw
      rw [Function.update_of_ne (Int.ne_of_lt hlt)]
      exact hr.revised w hw
    · rw [Function.update_self]
      exact List.cons_ne_nil _ _
  · have hmem : r ∈ db'.history r.workloadID := Db.mem_history.2 ⟨hr', rfl⟩
    rw [hhist, List.mem_append] at hmem
    rcases hmem with hold | hnew'
    · obtain ⟨w, hw, hwid⟩ := hr.owned r (Db.mem_history.1 hold).1
      exact ⟨w, (hrows w).2 (.inl hw), hwid⟩
    · split at hnew'
      · rename_i hid
        exact ⟨_, (hrows _).2 (.inr rfl), hid⟩
      · exact nomatch hnew'

theorem saveRevision_ids {content ports note : String} {rid : ID}
    (h : db.saveRevision id content ports note now = .ok (rid, db')) : (∃ w ∈ db.workloads, w.id = id) ∧
      ∀ wid, (∃ w ∈ db'.workloads, w.id = wid) ↔ ∃ w ∈ db.workloads, w.id = wid := by
  obtain ⟨hw, rfl, rfl⟩ := Db.saveRevision_ok h
  have htouch : Unrevised db (db.touchWorkload id now) := unrevised_modify _
  exact ⟨hw, fun wid => htouch.ids wid⟩

theorem recorded_save {content ports note : String} {rid : ID} (hr : Recorded db made)
    (h : db.saveRevision id content ports note now = .ok (rid, db')) :
    Recorded db' (Function.update made id (made id ++ [⟨content, ports, note, now⟩])) := by
  obtain ⟨hex, hids⟩ := saveRevision_ids h
  have hhist := Db.saveRevision_history h
  refine ⟨fun wid => ?_, fun w hw => ?_, fun r hr' => ?_⟩
  · rw [hhist, List.map_append, hr.history]
    by_cases hid : id = wid
    · subst hid
      rw [if_pos rfl, Function.update_self]
      rfl
    · rw [if_neg hid, Function.update_of_ne (Ne.symm hid)]
      exact List.append_nil _
  · by_cases hid : w.id = id
    · rw [hid, Function.update_self]
      exact List.append_ne_nil_of_right_ne_nil _ (List.cons_ne_nil _ _)
    · obtain ⟨x, hx, hxid⟩ := (hids w.id).1 ⟨w, hw, rfl⟩
      rw [Function.update_of_ne hid, ← hxid]
      exact hr.revised x hx
  · have hmem : r ∈ db'.history r.workloadID := Db.mem_history.2 ⟨hr', rfl⟩
    rw [hhist, List.mem_append] at hmem
    refine (hids _).2 ?_
    rcases hmem with hold | hnew
    · exact hr.owned r (Db.mem_history.1 hold).1
    · split at hnew
      · rename_i hid
        rw [← hid]
        exact hex
      · exact nomatch hnew

theorem recorded_delete (hr : Recorded db made) (h : db.deleteWorkload id = .ok db') :
    Recorded db' (Function.update made id []) := by
  have hrem := deleteWorkload_removed h
  refine ⟨fun wid => ?_, fun w hw => ?_, fun r hr' => ?_⟩
  · by_cases hid : wid = id
    · subst hid
      rw [Function.update_self, List.map_eq_nil_iff]
      refine List.eq_nil_iff_forall_not_mem.2 fun r hr' => ?_
      obtain ⟨hr', hwid⟩ := Db.mem_history.1 hr'
      exact ((hrem.revisions r).1 hr').2 hwid
    · rw [Function.update_of_ne hid, ← hr.history]
      congr 1
      obtain rfl := Db.deleteWorkload_ok h
      unfold Db.history deleteWhere
      rw [List.filter_filter]
      refine List.filter_congr fun r _ => ?_
      by_cases hwid : r.workloadID = wid
      · simp [hwid, hid]
      · simp [hwid]
  · obtain ⟨hw, hid⟩ := (hrem.workloads w).1 hw
    rw [Function.update_of_ne hid]
    exact hr.revised w hw
  · obtain ⟨hr', hid⟩ := (hrem.revisions r).1 hr'
    obtain ⟨w, hw, hwid⟩ := hr.owned r hr'
    exact ⟨w, (hrem.workloads w).2 ⟨hw, by rw [hwid]; exact hid⟩, hwid⟩

theorem recorded_unrevised (hr : Recorded db made) (h : Unrevised db db') : Recorded db' made := by
  refine ⟨fun wid => ?_, fun w hw => ?_, fun r hr' => ?_⟩
  · rw [Db.history_congr h.revisions]
    exact hr.history wid
  · obtain ⟨x, hx, hid⟩ := (h.ids w.id).1 ⟨w, hw, rfl⟩
    rw [← hid]
    exact hr.revised x hx
  · rw [h.revisions] at hr'
    exact (h.ids _).2 (hr.owned r hr')

/-! ## Every call -/

/-- A method that is one transaction commits it or leaves everything as it was. -/
theorem after_cases {a : Attempt} {α : Type} {m : StateT Db (Except Err) α}
    (h : Ends (fun _ c' => Committed m (Conn.open_ db) c') (a.op.program a.now).run (.open_ db)) :
    (a.after db = db ∧ a.commits db = false) ∨
      ∃ x, m.run db = .ok (x, a.after db) ∧ a.commits db = true := by
  have hend := h.runWith a.faults
  unfold Attempt.after Attempt.commits Attempt.conn
  rcases hend with heq | ⟨x, d, hm, heq⟩
  · rw [heq]
    exact .inl ⟨rfl, rfl⟩
  · rw [heq]
    exact .inr ⟨x, hm, rfl⟩

/-- A creation that answers without an error is recorded. -/
theorem Attempt.record_created {a : Attempt} {name displayName typ content ports : String}
    (hop : a.op = .createWorkload name displayName typ content ports) (h : a.answer db = .ok ()) :
    a.record db made db.workloads.nextId = [⟨content, ports, "created", a.now⟩] := by
  unfold record
  rw [if_pos (commits_of_ok h), hop]
  exact Function.update_self ..

/-- A save that answers without an error is recorded. -/
theorem Attempt.record_saved {a : Attempt} {content ports note : String}
    (hop : a.op = .saveRevision id content ports note) (h : a.answer db = .ok ()) :
    a.record db made id = made id ++ [⟨content, ports, note, a.now⟩] := by
  unfold record
  rw [if_pos (commits_of_ok h), hop]
  exact Function.update_self ..

theorem deleteWorkload_cases (db : Db) {a : Attempt} (hop : a.op = .deleteWorkload id) :
    (a.after db = db ∧ a.commits db = false) ∨
    (db.deleteWorkload id = .ok (a.after db) ∧ a.commits db = true) := by
  have hend : Ends (fun _ c' => Committed (fun db => (Db.deleteWorkload db id).map fun db =>
    ((), db)) (Conn.open_ db) c')
      (a.op.program a.now).run (.open_ db) := by
    rw [hop]
    exact change_committed (fun db => db.deleteWorkload id) rfl
  rcases after_cases hend with h | ⟨x, hm, hc⟩
  · exact .inl h
  · exact .inr ⟨Db.unit_ok hm, hc⟩

theorem recorded_spared {a : Attempt} (h : a.op.sparesRevisions = true) (hr : Recorded db made) :
    Recorded (a.after db) (a.record db made) := by
  have hend : Ends (fun _ => Settled (Conn.open_ db)) (a.op.program a.now).run (.open_ db) :=
    Operation.program_settled h rfl
  have hrecord : a.record db made = made := by
    obtain ⟨op, now, faults⟩ := a
    cases op with
    | createWorkload | saveRevision | deleteWorkload => exact nomatch h
    | _ => exact ite_self _
  rw [hrecord]
  exact recorded_unrevised hr (hend.runWith a.faults).2

theorem recorded_attempt (a : Attempt) (hr : Recorded db made) : Recorded (a.after db) (a.record db made) := by
  obtain ⟨op, now, faults⟩ := a
  unfold Attempt.record
  cases op with
  | createWorkload name displayName typ content ports =>
    rcases after_cases (a := ⟨.createWorkload name displayName typ content ports, now, faults⟩)
      (createWorkload_committed rfl) with ⟨hdb, hc⟩ | ⟨x, hm, hc⟩
    · rw [hdb, hc]
      exact hr
    · rw [hc]
      exact recorded_create hr hm
  | saveRevision id content ports note =>
    rcases after_cases (a := ⟨.saveRevision id content ports note, now, faults⟩)
      (saveRevision_committed rfl) with ⟨hdb, hc⟩ | ⟨x, hm, hc⟩
    · rw [hdb, hc]
      exact hr
    · rw [hc]
      exact recorded_save hr hm
  | deleteWorkload id =>
    rcases deleteWorkload_cases db (a := ⟨.deleteWorkload id, now, faults⟩) rfl with ⟨hdb, hc⟩ | ⟨hm, hc⟩
    · rw [hdb, hc]
      exact hr
    · rw [hc]
      exact recorded_delete hr hm
  | _ => exact recorded_spared (a := ⟨_, now, faults⟩) rfl hr

/-! ## Every sequence of calls -/

theorem recorded_replay (as : List Attempt) : Recorded (replay as).1 (replay as).2 := by
  have hall : ∀ s : Db × Made, Recorded s.1 s.2 →
      Recorded (as.foldl (fun s a => (a.after s.1, a.record s.1 s.2)) s).1
        (as.foldl (fun s a => (a.after s.1, a.record s.1 s.2)) s).2 := by
    induction as with
    | nil => exact fun s hs => hs
    | cons a as ih => exact fun s hs => ih _ (recorded_attempt a hs)
  exact hall _ ⟨fun _ => rfl, fun _ hw => absurd hw not_mem_empty, fun _ hr => absurd hr not_mem_empty⟩

end Steps

/-- What the store keeps of the calls made: what it answers about each workload, and what deleting
one does next. -/
structure KeepsHistories (db : Db) (made : Made) : Prop where
  revised : ∀ w ∈ db.workloads, db.revisionList w.id ≠ []
  revisions : ∀ id, (db.revisionList id).map Revision.snapshot = (made id).reverse
  latest : ∀ w ∈ db.workloads, ∃ r, db.latestRevision w.id = .ok r ∧ (made w.id).getLast? = some r.snapshot
  deleted : ∀ (a : Attempt) (id : ID), a.op = .deleteWorkload id →
    if a.commits db then Removed id db (a.after db) else a.after db = db

/-- Revisions are the committed snapshots of a workload, newest first, and deleting a workload takes
nothing of another. -/
theorem revisions_are_snapshots (as : List Attempt) : KeepsHistories (replay as).1 (replay as).2 := by
  have hrec := recorded_replay as
  generalize (replay as).1 = db at hrec ⊢
  generalize (replay as).2 = made at hrec ⊢
  refine ⟨fun w hw => ?_, fun id => ?_, fun w hw => ?_, fun a id hop => ?_⟩
  · have hne := hrec.revised w hw
    rw [← hrec.history] at hne
    unfold Db.revisionList
    simpa using hne
  · unfold Db.revisionList
    rw [List.map_reverse, hrec.history]
  · have hne := hrec.revised w hw
    rw [← hrec.history] at hne
    have hsome : ((db.history w.id).getLast?).isSome := by
      simpa [List.getLast?_isSome] using hne
    obtain ⟨r, hlast⟩ := Option.isSome_iff_exists.1 hsome
    refine ⟨r, ?_, ?_⟩
    · unfold Db.latestRevision
      rw [hlast]
    · rw [← hrec.history, List.getLast?_map, hlast]
      rfl
  · rcases deleteWorkload_cases db hop with ⟨hdb, hc⟩ | ⟨hm, hc⟩
    · rw [hc]
      exact hdb
    · rw [hc]
      exact deleteWorkload_removed hm

/-- A workload is created and saved, and saved again with a commit that fails. -/
def savedTwice : List Attempt :=
  [⟨.createWorkload "web" "Web" "nixos-container" "a" "", 10, []⟩,
    ⟨.saveRevision 1 "b" "80/tcp" "edit", 11, []⟩,
    ⟨.saveRevision 1 "c" "" "edit", 12, [false, false, false, true]⟩]

theorem revisions_are_snapshots_saved :
    (replay savedTwice).2 1 = [⟨"a", "", "created", 10⟩, ⟨"b", "80/tcp", "edit", 11⟩] ∧
      KeepsHistories (replay savedTwice).1 (replay savedTwice).2 :=
  ⟨by decide +kernel, revisions_are_snapshots savedTwice⟩

end Nixbox.Store
