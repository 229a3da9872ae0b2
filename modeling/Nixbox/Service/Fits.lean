/-
Whether a workload.nix holds the latest revision of its workload, and what each call and each step
of a job does to that.
-/
import Nixbox.Service.Histories

namespace Nixbox

open Effect Prog Store Server Keyed Directory
open Nix hiding FlakeInput

/-! ## Definitions -/

/-- The workload `name`, if there is one, has a workload.nix, with the content of its latest revision. -/
def State.fits (s : State) (name : String) : Bool :=
  s.db.workloads.rows.all fun w => w.name != name ||
    (s.db.latest w.id).any fun r => s.disk.workloads.get? name == some r.content

/-- What a statement that succeeds adds to which history: the name of the workload, and the content. -/
def Write.recorded {α : Type} (db : Db) : Write α → Option (String × String)
  | .saveRevision wid content _ _ => (db.workloads.find? wid).map fun w => (w.name, content)
  | .createWorkload name _ _ content _ =>
    match db.workloadByName name with
    | .ok _ => none
    | .error _ => some (name, content)
  | _ => none

/-- What a call that succeeds adds to which history. -/
def Op.recorded {β : Type} (s : State) : Op β → Option (String × String)
  | .write w => w.recorded s.db
  | _ => none

theorem fits_iff {s : State} {name : String} : s.fits name = true ↔ ∀ w ∈ s.db.workloads, w.name = name →
    ∃ r, s.db.latest w.id = some r ∧ s.disk.workloads.get? name = some r.content := by
  unfold State.fits
  rw [List.all_eq_true]
  refine forall₂_congr fun w _ => ?_
  rw [Bool.or_eq_true, bne_iff_ne, Option.any_eq_true]
  simp only [beq_iff_eq]
  exact ⟨fun h hname => h.resolve_left (not_not_intro hname),
    fun h => or_iff_not_imp_left.2 fun hn => h (not_not.1 hn)⟩

/-- Where no workload has the name, nothing has to fit. -/
theorem fits_of_free {s : State} {name : String} (h : (!(s.db.workloads.rows.any (·.name == name))) = true) :
    s.fits name = true := by
  refine fits_iff.2 fun w hw hname => ?_
  rw [Bool.not_eq_eq_eq_not, Bool.not_true] at h
  exact absurd hname (by simpa using List.any_eq_false.1 h w hw)

/-! ## What the calls do to a workload -/

section Calls

variable {s s' : State} {name : String}

/-- Where the rows come from rows of the same name and history, and the file is the same. -/
theorem fits_of (hrows : ∀ w' ∈ s'.db.workloads, w'.name = name →
      ∃ w ∈ s.db.workloads, w.id = w'.id ∧ w.name = name ∧ s'.db.history w.id = s.db.history w.id)
    (hfile : s'.disk.workloads.get? name = s.disk.workloads.get? name) (h : s.fits name = true) :
    s'.fits name = true := by
  refine fits_iff.2 fun w' hw' hname => ?_
  obtain ⟨w, hw, hid, hname', hhist⟩ := hrows w' hw' hname
  obtain ⟨r, hr, hfits⟩ := fits_iff.1 h w hw hname'
  refine ⟨r, ?_, hfile.trans hfits⟩
  rw [← hid]
  unfold Db.latest
  rw [hhist]
  exact hr

/-- Where the rows come from rows of the same id and name, and histories and files are the same. -/
theorem fits_rows (hrows : ∀ w' ∈ s'.db.workloads, ∃ w ∈ s.db.workloads, w.id = w'.id ∧ w.name = w'.name)
    (hrevs : s'.db.revisions = s.db.revisions) (hdisk : s'.disk.workloads = s.disk.workloads)
    (h : s.fits name = true) : s'.fits name = true := by
  refine fits_of (fun w' hw' hn => ?_) (by rw [hdisk]) h
  obtain ⟨w, hw, hid, hname⟩ := hrows w' hw'
  exact ⟨w, hw, hid, hname.trans hn, Db.history_congr hrevs _⟩

/-- A statement that records no revision keeps ids and names, and adds no workload. -/
theorem Write.run_rows {α : Type} {w : Write α} {now : Time} {db db' : Db} {a : α} (hr : w.kind ≠ .revision)
    (h : w.run now db = .ok (a, db')) :
    ∀ x' ∈ db'.workloads, ∃ x ∈ db.workloads, x.id = x'.id ∧ x.name = x'.name := by
  intro x' hx'
  by_cases hrow : w.kind = .workloadRow
  · cases w with
    | setWorkloadEnabled id enabled =>
      cases h
      rcases Db.mem_setWorkloadEnabled.1 hx' with ⟨hx, -⟩ | ⟨x, hx, -, rfl⟩
      · exact ⟨x', hx, rfl, rfl⟩
      · exact ⟨x, hx, rfl, rfl⟩
    | setWorkloadDisplayName id displayName =>
      cases h
      rcases Db.mem_setWorkloadDisplayName.1 hx' with ⟨hx, -⟩ | ⟨x, hx, -, rfl⟩
      · exact ⟨x', hx, rfl, rfl⟩
      · exact ⟨x, hx, rfl, rfl⟩
    | _ => cases hrow
  · rw [(Write.run_frame h).workloads hr hrow] at hx'
    exact ⟨x', hx', rfl, rfl⟩

/-- Neither does a call that records none. -/
theorem exec_noNew {β : Type} {op : Op β} (hr : op.kind ≠ .revision) :
    ∀ x' ∈ (s.exec op).2.db.workloads, ∃ x ∈ s.db.workloads, x.id = x'.id ∧ x.name = x'.name := by
  rcases exec_rows op s with hsame | ⟨α, w, a, hk, hrun⟩
  · rw [hsame]
    exact fun x' hx' => ⟨x', hx', rfl, rfl⟩
  · exact Write.run_rows (hk ▸ hr) hrun

/-- A call that neither writes a workload.nix nor records a revision. -/
theorem exec_fits {β : Type} {op : Op β} (hr : op.kind ≠ .revision) (hf : op.kind ≠ .workloadFile)
    (h : s.fits name = true) : (s.exec op).2.fits name = true := by
  have hframe := exec_frame (List.mem_singleton_self op.kind) s
  have hrevs := hframe.revisions (by simpa using Ne.symm hr)
  have hdisk := hframe.workloads (by simpa using Ne.symm hf)
  exact fits_rows (exec_noNew hr) hrevs hdisk h

/-- Another workload's file. -/
theorem putFile_fits {n content : String} (hne : name ≠ n) (h : s.fits name = true) :
    (s.putFile n content).fits name = true := by
  refine fits_of (s := s) (fun w hw hn => ⟨w, hw, rfl, hn, rfl⟩) ?_ h
  exact Dir.get?_put_of_ne hne

variable {now : Time} {n content ports : String} {id : ID} {db : Db}

/-- With its first revision recorded, a workload fits the file that has the content of it. -/
theorem createWorkload_fits {displayName typ : String}
    (hdb : s.db.createWorkload n displayName typ content ports now = .ok (id, db)) (hs' : s'.db = db)
    (hdisk : s'.disk = s.disk) (hfile : name = n → s.disk.workloads.get? n = some content)
    (h : name ≠ n → s.fits name = true) : s'.fits name = true := by
  have hnew := (Db.createWorkload_ok hdb).1
  obtain ⟨rfl, hhist, hrows⟩ := Db.createWorkload_history hdb
  subst hs'
  by_cases hn : name = n
  · subst hn
    refine fits_iff.2 fun w' hw' hname => ?_
    rcases (hrows w').1 hw' with hold | rfl
    · exact absurd hname (hnew w' hold)
    · have hlatest : s'.db.latest s.db.workloads.nextId =
          some ⟨s.db.revisions.nextId, s.db.workloads.nextId, content, ports, now, "created"⟩ := by
        unfold Db.latest
        rw [hhist, if_pos rfl, List.getLast?_concat]
      exact ⟨_, hlatest, by rw [hdisk]; exact hfile rfl⟩
  · refine fits_of (fun w' hw' hname => ?_) (by rw [hdisk]) (h hn)
    rcases (hrows w').1 hw' with hold | rfl
    · refine ⟨w', hold, rfl, hname, ?_⟩
      have hid : s.db.workloads.nextId ≠ w'.id := Ne.symm (Int.ne_of_lt (Table.rowid_lt_nextId hold))
      rw [hhist, if_neg hid, List.append_nil]
    · exact absurd hname.symm hn

/-- With a revision recorded, a workload fits the file that has the content of it. -/
theorem saveRevision_fits (hwf : s.db.WF) {w : Workload} (hw : w ∈ s.db.workloads) {note : String}
    (hdb : s.db.saveRevision w.id content ports note now = .ok (id, db)) (hs' : s'.db = db)
    (hdisk : s'.disk = s.disk) (hfile : name = w.name → s.disk.workloads.get? w.name = some content)
    (h : name ≠ w.name → s.fits name = true) : s'.fits name = true := by
  have hhist := Db.saveRevision_history hdb
  have hrows : ∀ x' ∈ s'.db.workloads, ∃ x ∈ s.db.workloads, x.id = x'.id ∧ x.name = x'.name := by
    rw [hs']
    obtain ⟨-, rfl, rfl⟩ := Db.saveRevision_ok hdb
    intro x' hx'
    rcases Db.mem_touchWorkload.1 hx' with ⟨hx, -⟩ | ⟨x, hx, -, rfl⟩
    · exact ⟨x', hx, rfl, rfl⟩
    · exact ⟨x, hx, rfl, rfl⟩
  -- the workload saved, or one whose latest revision is what it was
  by_cases hn : name = w.name
  · subst hn
    refine fits_iff.2 fun x' hx' hname => ?_
    obtain ⟨x, hx, hid, hname'⟩ := hrows x' hx'
    have hxw : x = w := hwf.workloadNames x hx w hw (hname'.trans hname)
    subst hxw
    have hlatest : s'.db.latest x'.id = some ⟨s.db.revisions.nextId, x.id, content, ports, now, note⟩ := by
      rw [hs']
      unfold Db.latest
      rw [hhist, if_pos hid, List.getLast?_concat]
    exact ⟨_, hlatest, by rw [hdisk]; exact hfile rfl⟩
  · refine fits_of (fun x' hx' hname => ?_) (by rw [hdisk]) (h hn)
    obtain ⟨x, hx, hid, hname'⟩ := hrows x' hx'
    refine ⟨x, hx, hid, hname'.trans hname, ?_⟩
    have hne : w.id ≠ x.id := by
      intro heq
      have hwx : w = x := Table.eq_of_rowid hw hx heq
      subst hwx
      exact hn (hname'.trans hname).symm
    rw [hs', hhist, if_neg hne, List.append_nil]

/-- A statement that fails. -/
theorem State.write_error {α : Type} {w : Write α} {e : Err} (h : w.run (s.host.clock s.ticks) s.db = .error e) :
    s.write w = (.error e, { s with ticks := s.ticks + 1 }) := by
  unfold State.write
  rw [h]

/-- Nothing to record: the statement fails. -/
theorem recorded_none {β : Type} {op : Op β} (hk : op.kind = .revision) (h : op.recorded s = none) :
    (s.exec op).2 = { s with ticks := s.ticks + 1 } := by
  cases op with
  | write w =>
    change w.recorded s.db = none at h
    cases w with
    | createWorkload n displayName typ content ports =>
      unfold Write.recorded at h
      dsimp only at h
      split at h
      · rename_i x hx
        refine congrArg Prod.snd (State.write_error (e := .failed) ?_)
        show s.db.createWorkload n displayName typ content ports _ = _
        unfold Db.createWorkload
        rw [hx]
      · cases h
    | saveRevision wid content ports note =>
      refine congrArg Prod.snd (State.write_error (e := .failed) ?_)
      show s.db.saveRevision wid content ports note _ = _
      unfold Db.saveRevision
      rw [Option.map_eq_none_iff.1 h]
    | _ => cases hk
  | _ => cases hk

/-- A revision recorded: for its workload the file has to have its content, the others are as they
were. -/
theorem recorded_fits {β : Type} {op : Op β} (hwf : s.db.WF) (h : op.recorded s = some (n, content))
    (hfile : name = n → s.disk.workloads.get? n = some content) (hother : name ≠ n → s.fits name = true) :
    (s.exec op).2.fits name = true := by
  cases op with
  | write w =>
    change w.recorded s.db = some _ at h
    cases w with
    | createWorkload m displayName typ c ports =>
      unfold Write.recorded at h
      dsimp only at h
      split at h
      · cases h
      · rename_i e he
        cases h
        -- what is recorded of the insert is that it goes through
        obtain ⟨a, hrun⟩ :
            ∃ a, s.db.createWorkload n displayName typ content ports (s.host.clock s.ticks) = .ok a := by
          unfold Db.createWorkload
          rw [he]
          exact ⟨_, rfl⟩
        have hs : s.exec (.write (.createWorkload n displayName typ content ports)) = _ := State.write_ok hrun
        rw [hs]
        exact createWorkload_fits hrun rfl rfl hfile hother
    | saveRevision wid c ports note =>
      obtain ⟨w, hw, heq⟩ := Option.map_eq_some_iff.1 h
      cases heq
      obtain ⟨hw', hid⟩ := Table.find?_eq_some.1 hw
      have hid' : w.id = wid := hid
      subst hid'
      obtain ⟨a, hrun⟩ : ∃ a, s.db.saveRevision w.id content ports note (s.host.clock s.ticks) = .ok a := by
        unfold Db.saveRevision
        rw [hw]
        exact ⟨_, rfl⟩
      have hs : s.exec (.write (.saveRevision w.id content ports note)) = _ := State.write_ok hrun
      rw [hs]
      exact saveRevision_fits hwf hw' hrun rfl rfl hfile hother
    | _ => cases h
  | _ => cases h

/-! ## What a step of the job does to a workload -/

/-- Deleting a workload leaves the others with their histories. -/
theorem deleteWorkload_kept {db' : Db} (h : db.deleteWorkload id = .ok db') {w : Workload} (hw : w ∈ db'.workloads) :
    w ∈ db.workloads ∧ w.id ≠ id ∧ db'.history w.id = db.history w.id := by
  obtain rfl := Db.deleteWorkload_ok h
  obtain ⟨hw, hid⟩ := Table.mem_deleteWhere.1 hw
  have hne : w.id ≠ id := by simpa using hid
  refine ⟨hw, hne, ?_⟩
  show (db.revisions.rows.filter fun r => !(r.workloadID == id)).filter _ = db.revisions.rows.filter _
  rw [List.filter_filter]
  refine List.filter_congr fun r _ => ?_
  by_cases hr : r.workloadID = w.id
  · simp [hr, hne]
  · simp [hr]

/-- No step of a job adds a workload or renames one. -/
theorem job_noNew {i : Jobs.Input} {j j' : Running} (hst : Jobs.Stepped i s j s' j') :
    ∀ x' ∈ s'.db.workloads, ∃ x ∈ s.db.workloads, x.id = x'.id ∧ x.name = x'.name := by
  intro x' hx'
  cases hst with
  | markedWorkload _ _ hdb =>
    rcases (mem_markApplied hdb).1 hx' with ⟨hx, -⟩ | ⟨x, hx, -, rfl⟩
    · exact ⟨x', hx, rfl, rfl⟩
    · exact ⟨x, hx, rfl, rfl⟩
  | deletedRow _ _ hdb => exact ⟨x', (deleteWorkload_kept hdb hx').1, rfl, rfl⟩
  | _ => exact ⟨x', hx', rfl, rfl⟩

/-- Only the removal of its directory touches a workload's file. -/
theorem job_file {i : Jobs.Input} {j j' : Running} (hst : Jobs.Stepped i s j s' j')
    (hdir : ∀ {id type deleteData}, j.phase = .removeDir → j.fn = .destroy name id type deleteData →
      i.fault ≠ false) :
    s'.disk.workloads.get? name = s.disk.workloads.get? name := by
  cases hst with
  | @removedDir n id type deleteData hp hfn hf =>
    by_cases hn : name = n
    · subst hn
      exact absurd hf (hdir hp hfn)
    · exact Dir.get?_remove_of_ne hn
  | _ => rfl

/-- Only the removal of its directory takes a workload's file away. -/
theorem job_fits {i : Jobs.Input} {j j' : Running} (hst : Jobs.Stepped i s j s' j')
    (hdir : ∀ {id type deleteData}, j.phase = .removeDir → j.fn = .destroy name id type deleteData →
      i.fault = false → ∀ w ∈ s.db.workloads, w.name ≠ name)
    (h : s.fits name = true) : s'.fits name = true := by
  have hrows := job_noNew hst
  cases hst with
  | markedWorkload _ _ hdb =>
    refine fits_rows (s := s) hrows ?_ rfl h
    obtain rfl := Db.markApplied_ok hdb
    rfl
  | @deletedRow _ id _ _ db _ _ hdb =>
    refine fits_of (s := s) (fun w' hw' hn => ?_) rfl h
    obtain ⟨hw, -, hhist⟩ := deleteWorkload_kept hdb hw'
    exact ⟨w', hw, rfl, hn, hhist⟩
  | @removedDir n id type deleteData hp hfn hf =>
    by_cases hn : name = n
    · subst hn
      exact fits_iff.2 fun w hw hname => absurd hname (hdir hp hfn hf w hw)
    · refine fits_of (s := s) (fun w hw hname => ⟨w, hw, rfl, hname, rfl⟩) ?_ h
      exact Dir.get?_remove_of_ne hn
  | _ => exact h

end Calls

end Nixbox
