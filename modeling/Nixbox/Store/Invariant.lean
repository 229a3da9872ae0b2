/-
What every statement keeps of the database: names are unique, a revision belongs to a workload and
a workload has a revision. And the history of a workload under each statement.
-/
import Nixbox.Service.State

namespace Nixbox.Store

open Keyed Table

namespace Db

variable {db db' : Db} {id : ID} {now : Time}

/-! ## Definitions -/

/-- The newest revision of a workload. -/
def latest (db : Db) (id : ID) : Option Revision := (db.history id).getLast?

/-- A well-formed database: the names the schema declares UNIQUE are, each revision has its
workload, and each workload was created with a revision. -/
structure WF (db : Db) : Prop where
  workloadNames : UniqueBy Workload.name db.workloads
  inputNames : UniqueBy FlakeInput.name db.flakeInputs
  secretNames : UniqueBy SecretRow.name db.secrets
  owned : ∀ r ∈ db.revisions, ∃ w ∈ db.workloads, w.id = r.workloadID
  revised : ∀ w ∈ db.workloads, ∃ r ∈ db.revisions, r.workloadID = w.id

/-! ## Looking rows up -/

theorem mem_workloadList {w : Workload} : w ∈ db.workloadList ↔ w ∈ db.workloads :=
  List.mem_insertionSort _

theorem mem_secretRows {s : SecretRow} : s ∈ db.secretRows ↔ s ∈ db.secrets :=
  List.mem_insertionSort _

theorem mem_history {r : Revision} : r ∈ db.history id ↔ r ∈ db.revisions ∧ r.workloadID = id := by
  unfold history
  rw [List.mem_filter, beq_iff_eq]
  rfl

theorem latestRevision_ok {r : Revision} : db.latestRevision id = .ok r ↔ db.latest id = some r := by
  unfold latestRevision latest
  cases (db.history id).getLast? with
  | none => exact ⟨nofun, nofun⟩
  | some x => exact ⟨fun h => by cases h; rfl, fun h => by cases h; rfl⟩

theorem WF.latest_some (h : db.WF) {w : Workload} (hw : w ∈ db.workloads) : ∃ r, db.latest w.id = some r := by
  obtain ⟨r, hr, hid⟩ := h.revised w hw
  have hmem : r ∈ db.history w.id := mem_history.2 ⟨hr, hid⟩
  exact Option.isSome_iff_exists.1 (List.getLast?_isSome.2 (List.ne_nil_of_mem hmem))

theorem secretRowByName_of_mem (h : db.WF) {x : SecretRow} (hx : x ∈ db.secrets) :
    db.secretRowByName x.name = .ok x := by
  unfold secretRowByName
  split
  · rename_i y hy
    have hname : y.name = x.name := by simpa using List.find?_some hy
    rw [h.secretNames y (List.mem_of_find?_eq_some hy) x hx hname]
  · rename_i hnone
    exact absurd (List.find?_eq_none.1 hnone x hx) (by simp)

/-! ## Statements on workloads -/

theorem mem_modify_id {t : Table Workload} {f : Workload → Workload} (hf : ∀ w, rowid (f w) = rowid w)
    {w : Workload} (hw : w ∈ t.modify id f hf) : ∃ x ∈ t, x.id = w.id ∧ (w = x ∨ w = f x) := by
  rcases mem_modify.1 hw with ⟨hx, -⟩ | ⟨x, hx, -, rfl⟩
  · exact ⟨w, hx, rfl, .inl rfl⟩
  · exact ⟨x, hx, (hf x).symm, .inr rfl⟩

theorem exists_modify_id {t : Table Workload} {f : Workload → Workload} (hf : ∀ w, rowid (f w) = rowid w)
    {w : Workload} (hw : w ∈ t) : ∃ x ∈ t.modify id f hf, x.id = w.id := by
  by_cases hid : w.id = id
  · exact ⟨f w, mem_modify.2 (.inr ⟨w, hw, hid, rfl⟩), hf w⟩
  · exact ⟨w, mem_modify_of_ne hf hw hid, rfl⟩

/-- A statement that rewrites one workload but not its name keeps the database well-formed. -/
theorem WF.modifyWorkload (h : db.WF) {f : Workload → Workload} (hf : ∀ w, rowid (f w) = rowid w)
    (hname : ∀ w, (f w).name = w.name) : ({ db with workloads := db.workloads.modify id f hf } : Db).WF where
  workloadNames := h.workloadNames.modify hf hname
  inputNames := h.inputNames
  secretNames := h.secretNames
  owned r hr := by
    obtain ⟨w, hw, hid⟩ := h.owned r hr
    obtain ⟨x, hx, hxid⟩ := exists_modify_id hf hw
    exact ⟨x, hx, hxid.trans hid⟩
  revised w hw := by
    obtain ⟨x, hx, hid, -⟩ := mem_modify_id hf hw
    obtain ⟨r, hr, hrid⟩ := h.revised x hx
    exact ⟨r, hr, hrid.trans hid⟩

theorem mem_setWorkloadEnabled {enabled : Bool} {w : Workload} :
    w ∈ (db.setWorkloadEnabled id enabled now).workloads ↔ (w ∈ db.workloads ∧ w.id ≠ id) ∨
      ∃ x ∈ db.workloads, x.id = id ∧ { x with enabled := enabled, updatedAt := now } = w := by
  unfold setWorkloadEnabled
  apply mem_modify
  exact fun _ => rfl

theorem mem_setWorkloadDisplayName {displayName : String} {w : Workload} :
    w ∈ (db.setWorkloadDisplayName id displayName now).workloads ↔ (w ∈ db.workloads ∧ w.id ≠ id) ∨
      ∃ x ∈ db.workloads, x.id = id ∧ { x with displayName := displayName, updatedAt := now } = w := by
  unfold setWorkloadDisplayName
  apply mem_modify
  exact fun _ => rfl

theorem createWorkload_wf (h : db.WF) {name displayName typ content ports : String} {a : ID}
    (hdb : db.createWorkload name displayName typ content ports now = .ok (a, db')) : db'.WF := by
  obtain ⟨hfree, rfl, rfl⟩ := createWorkload_ok hdb
  refine ⟨h.workloadNames.insert hfree, h.inputNames, h.secretNames, ?_, ?_⟩
  · intro r hr
    rcases mem_insert.1 hr with hr | rfl
    · obtain ⟨w, hw, hid⟩ := h.owned r hr
      exact ⟨w, mem_insert.2 (.inl hw), hid⟩
    · exact ⟨_, mem_insert.2 (.inr rfl), rfl⟩
  · intro w hw
    rcases mem_insert.1 hw with hw | rfl
    · obtain ⟨r, hr, hid⟩ := h.revised w hw
      exact ⟨r, mem_insert.2 (.inl hr), hid⟩
    · exact ⟨_, mem_insert.2 (.inr rfl), rfl⟩

theorem rowid_touched (now : Time) : ∀ w : Workload, rowid { w with updatedAt := now } = rowid w := fun _ => rfl

/-- Only the timestamp of a workload moves. -/
def touchWorkload (db : Db) (id : ID) (now : Time) : Db :=
  { db with
    workloads := db.workloads.modify id (fun w => { w with updatedAt := now }) (rowid_touched now) }

theorem mem_touchWorkload {w : Workload} : w ∈ (db.touchWorkload id now).workloads ↔
    (w ∈ db.workloads ∧ w.id ≠ id) ∨ ∃ x ∈ db.workloads, x.id = id ∧ { x with updatedAt := now } = w := by
  unfold Db.touchWorkload
  apply mem_modify
  exact fun _ => rfl

theorem WF.touchWorkload (h : db.WF) : (db.touchWorkload id now).WF := by
  refine h.modifyWorkload ?_ ?_
  all_goals exact fun _ => rfl

theorem exists_touchWorkload (id : ID) (now : Time) {w : Workload} (hw : w ∈ db.workloads) :
    ∃ x ∈ (db.touchWorkload id now).workloads, x.id = w.id := by
  refine exists_modify_id ?_ hw
  exact fun _ => rfl

theorem saveRevision_wf (h : db.WF) {content ports note : String} {a : ID}
    (hdb : db.saveRevision id content ports note now = .ok (a, db')) : db'.WF := by
  obtain ⟨⟨w, hw, hid⟩, rfl, rfl⟩ := saveRevision_ok hdb
  have hmod : (db.touchWorkload id now).WF := h.touchWorkload
  refine ⟨hmod.workloadNames, h.inputNames, h.secretNames, ?_, ?_⟩
  · intro r hr
    rcases mem_insert.1 hr with hr | rfl
    · exact hmod.owned r hr
    · obtain ⟨x, hx, hxid⟩ := exists_touchWorkload id now hw
      exact ⟨x, hx, hxid.trans hid⟩
  · intro w hw
    obtain ⟨r, hr, hrid⟩ := hmod.revised w hw
    exact ⟨r, mem_insert.2 (.inl hr), hrid⟩

theorem markApplied_wf (h : db.WF) {revisionID : ID} (hdb : db.markApplied id revisionID = .ok db') :
    db'.WF := by
  obtain rfl := markApplied_ok hdb
  refine h.modifyWorkload ?_ ?_
  all_goals exact fun _ => rfl

theorem deleteWorkload_wf (h : db.WF) (hdb : db.deleteWorkload id = .ok db') : db'.WF := by
  obtain rfl := deleteWorkload_ok hdb
  refine ⟨h.workloadNames.deleteWhere, h.inputNames, h.secretNames, ?_, ?_⟩
  · intro r hr
    obtain ⟨hr, hne⟩ := mem_deleteWhere.1 hr
    obtain ⟨w, hw, hid⟩ := h.owned r hr
    exact ⟨w, mem_deleteWhere.2 ⟨hw, by rw [hid]; exact hne⟩, hid⟩
  · intro w hw
    obtain ⟨hw, hne⟩ := mem_deleteWhere.1 hw
    obtain ⟨r, hr, hid⟩ := h.revised w hw
    exact ⟨r, mem_deleteWhere.2 ⟨hr, by rw [hid]; exact hne⟩, hid⟩

/-! ## Histories -/

theorem history_congr (h : db'.revisions = db.revisions) (id : ID) : db'.history id = db.history id := by
  unfold Db.history
  rw [h]

/-- Inserting a revision continues the history of its workload and no other. -/
theorem history_insert {mk : ID → Revision} (hmk : ∀ i, rowid (mk i) = i) (id : ID) :
    Db.history { db with revisions := db.revisions.insert mk hmk } id =
      db.history id ++ if (mk db.revisions.nextId).workloadID = id then [mk db.revisions.nextId] else [] := by
  unfold Db.history Table.insert
  rw [List.filter_append]
  congr 1
  by_cases h : (mk db.revisions.nextId).workloadID = id
  · rw [if_pos h, List.filter_cons_of_pos (by simpa using h)]
    rfl
  · rw [if_neg h, List.filter_cons_of_neg (by simpa using h)]
    rfl

/-- A new workload has one revision, the others theirs. -/
theorem createWorkload_history {name displayName typ content ports : String}
    (h : db.createWorkload name displayName typ content ports now = .ok (id, db')) :
    id = db.workloads.nextId ∧ (∀ wid, db'.history wid = db.history wid ++
      if id = wid then [⟨db.revisions.nextId, id, content, ports, now, "created"⟩] else []) ∧
      (∀ w, w ∈ db'.workloads ↔
        w ∈ db.workloads ∨ w = ⟨id, name, displayName, typ, false, now, now, none⟩) := by
  obtain ⟨-, rfl, rfl⟩ := createWorkload_ok h
  exact ⟨rfl, fun wid => history_insert (fun _ => rfl) wid, fun w => mem_insert⟩

theorem saveRevision_history {content ports note : String} {rid : ID}
    (h : db.saveRevision id content ports note now = .ok (rid, db')) (wid : ID) :
    db'.history wid = db.history wid ++
      if id = wid then [⟨db.revisions.nextId, id, content, ports, now, note⟩] else [] := by
  obtain ⟨-, rfl, rfl⟩ := Db.saveRevision_ok h
  exact history_insert (fun _ => rfl) wid

/-! ## Statements on inputs and secrets -/

theorem createFlakeInput_wf (h : db.WF) {name url : String} {follows : Bool} {a : ID}
    (hdb : db.createFlakeInput name url follows now = .ok (a, db')) : db'.WF := by
  obtain ⟨hfree, -, rfl⟩ := createFlakeInput_ok hdb
  exact { h with inputNames := h.inputNames.insert hfree }

theorem insertMount_secrets {sid wid : ID} (hdb : db.insertMount sid wid = .ok db') :
    ∃ mounts, db' = { db with secretMounts := mounts } := by
  unfold insertMount at hdb
  split at hdb
  · cases hdb
  · cases hdb; exact ⟨_, rfl⟩

theorem insertMounts_frame {sid : ID} {wids : List ID}
    (hdb : wids.foldlM (fun db wid => db.insertMount sid wid) db = .ok db') :
    ∃ mounts, db' = { db with secretMounts := mounts } := by
  induction wids generalizing db with
  | nil => cases hdb; exact ⟨_, rfl⟩
  | cons wid wids ih =>
    rw [List.foldlM_cons] at hdb
    cases hc : db.insertMount sid wid with
    | error e => rw [hc] at hdb; cases hdb
    | ok c =>
      rw [hc] at hdb
      obtain ⟨m, rfl⟩ := insertMount_secrets hc
      obtain ⟨m', rfl⟩ := ih hdb
      exact ⟨m', rfl⟩

/-- Replacing mounts touches the mounts only. -/
theorem replaceMounts_frame {sid : ID} {wids : List ID} (hdb : db.replaceMounts sid wids = .ok db') :
    ∃ mounts, db' = { db with secretMounts := mounts } := by
  unfold replaceMounts at hdb
  obtain ⟨m, hm⟩ := insertMounts_frame hdb
  exact ⟨m, hm⟩

/-- The mounts are not part of well-formedness. -/
theorem WF.withMounts (h : db.WF) (mounts : List SecretMount) : ({ db with secretMounts := mounts } : Db).WF :=
  { h with }

theorem createSecret_wf (h : db.WF) {name owner group mode : String} {wids : List ID} {a : ID}
    (hdb : db.createSecret name owner group mode wids now = .ok (a, db')) : db'.WF := by
  obtain ⟨hfree, -, hrep⟩ := createSecret_ok hdb
  obtain ⟨m, rfl⟩ := replaceMounts_frame hrep
  exact { h with secretNames := h.secretNames.insert hfree }

theorem updateSecret_wf (h : db.WF) {owner group mode : String} {wids : List ID}
    (hdb : db.updateSecret id owner group mode wids now = .ok db') : db'.WF := by
  obtain ⟨m, rfl⟩ := replaceMounts_frame hdb
  refine { h with secretNames := h.secretNames.modify ?_ ?_ }; all_goals exact fun _ => rfl

theorem insertMountOrIgnore_frame {sid wid : ID} {n : Nat} (hdb : db.insertMountOrIgnore sid wid = .ok (n, db')) :
    ∃ mounts, db' = { db with secretMounts := mounts } := by
  unfold insertMountOrIgnore at hdb
  split at hdb
  · cases hdb; exact ⟨_, rfl⟩
  · split at hdb
    · cases hdb
    · rename_i hins
      cases hdb
      exact insertMount_secrets hins

theorem createJob_frame {kind : JobKind} {wid : Option ID} {log : String} {a : ID}
    (hdb : db.createJob kind wid log now = .ok (a, db')) : ∃ jobs, db' = { db with jobs := jobs } := by
  obtain ⟨-, rfl, rfl⟩ := createJob_ok hdb
  exact ⟨_, rfl⟩

end Db

/-! ## Every statement of a request -/

/-- Statements keep the database well-formed. -/
theorem Write.run_wf {α : Type} {w : Write α} {now : Time} {db db' : Db} {a : α} (h : db.WF)
    (hw : w.run now db = .ok (a, db')) : db'.WF := by
  cases w with
  | createWorkload => exact Db.createWorkload_wf h hw
  | setWorkloadEnabled | setWorkloadDisplayName => cases hw; refine h.modifyWorkload ?_ ?_; all_goals exact fun _ => rfl
  | saveRevision => exact Db.saveRevision_wf h hw
  | createJob => obtain ⟨jobs, rfl⟩ := Db.createJob_frame hw; exact { h with }
  | setJobLogPath => cases hw; exact { h with }
  | createFlakeInput => exact Db.createFlakeInput_wf h hw
  | updateFlakeInput =>
    cases hw; refine { h with inputNames := h.inputNames.modify ?_ ?_ }; all_goals exact fun _ => rfl
  | deleteFlakeInput => cases hw; exact { h with inputNames := h.inputNames.deleteWhere }
  | createSecret => exact Db.createSecret_wf h hw
  | updateSecret => exact Db.updateSecret_wf h (Db.unit_ok hw)
  | insertMountOrIgnore => obtain ⟨m, rfl⟩ := Db.insertMountOrIgnore_frame hw; exact h.withMounts m
  | deleteMount => cases hw; exact { h with }
  | touchSecret => cases hw; refine { h with secretNames := h.secretNames.modify ?_ ?_ }; all_goals exact fun _ => rfl
  | deleteSecret => cases hw; exact { h with secretNames := h.secretNames.deleteWhere }

end Nixbox.Store
