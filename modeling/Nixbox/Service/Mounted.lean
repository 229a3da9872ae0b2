/-
The mounts of the secrets over the history of requests. A mount is there exactly if a request carried
out on the very secret has named the very workload and none since has taken it back, so a row that
comes by the id or the name of one that is gone starts without.
-/
import Mathlib.Data.List.Induction
import Nixbox.Server.Delivering
import Nixbox.Service.MountEdits

namespace Nixbox

open Effect Prog Store Server Keyed
open Nix hiding FlakeInput

/-! ## Definitions -/

/-- The edit of a request that has been successful. -/
def Event.edit (success : State → Request → List Bool → Bool) (s : State) : Event → Option MountEdit
  | .request r faults => if success s r faults then r.edit s.db else none
  | _ => none

/-- In the run on `es` a successful request on the secret has named the workload while it was there; both have
been there since, and no successful request has taken the mount back. -/
def Named (success : State → Request → List Bool → Bool) (s₀ : State) (es : List Event) (sid wid : ID) : Prop :=
  Runs.Since State.step
    (fun s e => (s.db.workloads.find? wid).isSome ∧ (e.edit success s).any (·.names sid wid) = true)
    (fun s e => s.db.Has sid wid ∧ (e.edit success s).any (·.withdraws sid wid) = false) s₀ es

/-- The states in which a request handled in `s` regenerates the index: an apply in `s`, a destroy once it has
disabled the workload. -/
inductive RegeneratedFrom (s : State) : State → Prop
  | apply : RegeneratedFrom s s
  | destroy {w : Workload} (hw : w ∈ s.db.workloads) : RegeneratedFrom s (s.disabled w.id)

/-- index.nix, generated from `t`, delivers by what the requests carried out in the run have named. -/
structure DeliversNamed (s₀ : State) (es : List Event) (t : State) (d : IndexDoc) : Prop where
  listed : ∀ x ∈ t.db.secrets, ∀ w ∈ t.db.workloads, ∀ key, d.delivers x.name key w.name ↔
    w.enabled = true ∧ Deliverable w.type key ∧ Named State.carriesOut s₀ es x.id w.id
  rows : ∀ secret key workload, d.delivers secret key workload →
    (∃ x ∈ t.db.secrets, x.name = secret) ∧ ∃ w ∈ t.db.workloads, w.name = workload
  unlisted : ∀ x ∈ t.db.secrets, ∀ w ∈ t.db.workloads, w.enabled = false ∨
    w.type = "host-service" ∨ lookup w.type = none →
    ∀ key, ¬ d.delivers x.name key w.name
  uninherited : ∀ x ∈ t.db.secrets, ∀ w ∈ t.db.workloads, ∀ key, d.delivers x.name key w.name →
    ∀ pre post u, es = pre ++ post → s₀.run pre = some u → ¬ u.db.Has x.id w.id →
      Named State.carriesOut u post x.id w.id

/-! ## Every step -/

section Steps

variable {s s' : State} {e : Event} {sid wid : ID}

theorem Write.run_workloads {α : Type} {w : Write α} {now : Time} {db db' : Db} {a : α}
    (h : w.run now db = .ok (a, db')) (hwid : (db.workloads.find? wid).isSome) : (db'.workloads.find? wid).isSome := by
  cases w with
  | createWorkload name displayName typ content ports =>
    change db.createWorkload name displayName typ content ports now = _ at h
    obtain ⟨-, rfl, rfl⟩ := Db.createWorkload_ok h
    obtain ⟨x, hx⟩ := Option.isSome_iff_exists.1 hwid
    dsimp only
    rw [Table.find?_insert_of_some hx]
    rfl
  | saveRevision id content ports note =>
    change db.saveRevision id content ports note now = _ at h
    obtain ⟨-, rfl, rfl⟩ := Db.saveRevision_ok h
    dsimp only
    rwa [Table.isSome_find?_modify]
  | setWorkloadEnabled =>
    cases h
    unfold Db.setWorkloadEnabled
    rwa [Table.isSome_find?_modify]
  | setWorkloadDisplayName =>
    cases h
    unfold Db.setWorkloadDisplayName
    rwa [Table.isSome_find?_modify]
  | _ => rwa [(Write.run_frame h).workloads nofun nofun]

/-- No request takes a workload's row away. -/
theorem State.handle_workloads (r : Request) (faults : List Bool) (h : (s.db.workloads.find? wid).isSome) :
    ((s.handle r faults).db.workloads.find? wid).isSome := by
  refine (ends_of_calls (I := fun t : State => (t.db.workloads.find? wid).isSome) (fun β op t ht => ?_)
    (serve r) h).runWith faults
  rcases exec_rows op t with hdb | ⟨α, w, a, -, hrun⟩
  · rw [show (Calls.exec op t).2.db = t.db from hdb]
    exact ht
  · exact Write.run_workloads hrun ht

/-- The mounts after a step: of pairs that are rows, those its edit names and those there were that it does not
withdraw. -/
def MountsStep (ed : Option MountEdit) (db db' : Db) : Prop :=
  ∀ sid wid, ⟨sid, wid⟩ ∈ db'.secretMounts ↔ db'.Has sid wid ∧
    (((db.workloads.find? wid).isSome ∧ ed.any (·.names sid wid) = true) ∨
      (⟨sid, wid⟩ ∈ db.secretMounts ∧ ed.any (·.withdraws sid wid) = false))

/-- Each mount joins rows. -/
def Store.Db.MountsJoin (db : Db) : Prop := ∀ sid wid, ⟨sid, wid⟩ ∈ db.secretMounts → db.Has sid wid

section MountsStep

variable {db db' : Db} {id : ID}

/-- A step without an edit keeps the mounts whose rows stay. -/
theorem mountsStep_none
    (h : ∀ sid wid, ⟨sid, wid⟩ ∈ db'.secretMounts ↔ ⟨sid, wid⟩ ∈ db.secretMounts ∧ db'.Has sid wid) :
    MountsStep none db db' := by
  intro sid wid
  rw [h sid wid]
  simp [and_comm]

theorem mountsStep_kept (hin : db.MountsJoin) (hmounts : db'.secretMounts = db.secretMounts)
    (hsecrets : ∀ sid, (db.secrets.find? sid).isSome → (db'.secrets.find? sid).isSome)
    (hworkloads : ∀ wid, (db.workloads.find? wid).isSome → (db'.workloads.find? wid).isSome) :
    MountsStep none db db' := by
  refine mountsStep_none fun sid wid => ?_
  rw [hmounts]
  refine ⟨fun h => ⟨h, ?_⟩, And.left⟩
  obtain ⟨hsid, hwid⟩ := hin sid wid h
  exact ⟨hsecrets sid hsid, hworkloads wid hwid⟩

theorem mountsStep_edited {ed : MountEdit} (hin : db.MountsJoin) (h : Db.MountsEdited ed db db')
    (hsecrets : ∀ sid, (db.secrets.find? sid).isSome → (db'.secrets.find? sid).isSome)
    (hworkloads : db'.workloads = db.workloads) : MountsStep (some ed) db db' := by
  intro sid wid
  rw [Option.any_some, Option.any_some]
  constructor
  · intro hmem
    have hhas : db'.Has sid wid := by
      rcases h.there sid wid hmem with hold | hhas
      · obtain ⟨hsid, hwid⟩ := hin sid wid hold
        exact ⟨hsecrets sid hsid, by rwa [hworkloads]⟩
      · exact hhas
    refine ⟨hhas, ((h.mem sid wid).1 hmem).imp_left fun hnames => ⟨?_, hnames⟩⟩
    rw [← hworkloads]
    exact hhas.2
  · rintro ⟨-, hnamed⟩
    exact (h.mem sid wid).2 (hnamed.imp_left And.right)

theorem mountsStep_deleteSecret (hin : db.MountsJoin) : MountsStep none db (db.deleteSecret id) := by
  refine mountsStep_none fun sid wid => ?_
  show ⟨sid, wid⟩ ∈ db.secretMounts.filter (fun m => m.secretID != id) ↔ _
  rw [List.mem_filter, bne_iff_ne]
  refine and_congr_right fun hmem => ?_
  obtain ⟨hsid, hwid⟩ := hin sid wid hmem
  have hfind : ((db.deleteSecret id).secrets.find? sid).isSome ↔ (db.secrets.find? sid).isSome ∧ sid ≠ id :=
    Table.isSome_find?_delete
  exact ⟨fun hne => ⟨hfind.2 ⟨hsid, hne⟩, hwid⟩, fun hhas => (hfind.1 hhas.1).2⟩

theorem mountsStep_deleteWorkload (hin : db.MountsJoin) (h : db.deleteWorkload id = .ok db') :
    MountsStep none db db' := by
  obtain rfl := Db.deleteWorkload_ok h
  refine mountsStep_none fun sid wid => ?_
  show ⟨sid, wid⟩ ∈ db.secretMounts.filter (fun m => m.workloadID != id) ↔ _
  rw [List.mem_filter, bne_iff_ne]
  refine and_congr_right fun hmem => ?_
  obtain ⟨hsid, hwid⟩ := hin sid wid hmem
  have hfind : ((db.workloads.deleteWhere fun w => w.id == id).find? wid).isSome ↔
      (db.workloads.find? wid).isSome ∧ wid ≠ id := Table.isSome_find?_delete
  exact ⟨fun hne => ⟨hsid, hfind.2 ⟨hwid, hne⟩⟩, fun hhas => (hfind.1 hhas.2).2⟩

end MountsStep

theorem handleSecretDelete_ends (name : String) :
    Ends (fun _ s' => s'.db = s.db ∨ ∃ id, s'.db = s.db.deleteSecret id) (handleSecretDelete name).run s := by
  refine (reads_lookupBy (reads_secretByName name)).bind (fun sec _ => ?_) fun _ => .inl rfl
  exact ends_exceptT_bind.2 (ends_orError.2 (ends_write.2 ⟨ends_return.2 (.inr ⟨sec.id, rfl⟩), .inl rfl⟩))

theorem Server.Request.edit_eq_none {r : Request} (hr : r.editsMounts = false) (db : Db) : r.edit db = none := by
  cases r <;> first | rfl | cases hr

theorem Event.edit_request {success : State → Request → List Bool → Bool} {r : Request} {faults : List Bool} :
    Event.edit success s (.request r faults) = if success s r faults then r.edit s.db else none := rfl

/-- A request that edits no mounts. -/
theorem State.handle_mountsStep (hin : s.db.MountsJoin) {r : Request}
    (hr : r.editsMounts = false) (faults : List Bool) :
    MountsStep none s.db (s.handle r faults).db := by
  have hkept : .secretRow ∉ r.kinds → MountsStep none s.db (s.handle r faults).db := by
    intro hk
    obtain ⟨hsecrets, hmounts⟩ := (s.handle_frame r faults).secretRows hk
    exact mountsStep_kept hin hmounts (fun sid h => by rwa [hsecrets]) fun wid h => State.handle_workloads r faults h
  cases r with
  | secretDelete name =>
    -- the one request that takes mounts away without an edit: the cascade of the row
    have hend : Ends (fun _ s' => s'.db = s.db ∨ ∃ id, s'.db =
        s.db.deleteSecret id) (serve (.secretDelete name)) s :=
      ends_answer_of (handleSecretDelete_ends name)
    rcases hend.runWith faults with hdb | ⟨id, hdb⟩
    · rw [show (s.handle (.secretDelete name) faults).db = s.db from hdb]
      exact mountsStep_kept hin rfl (fun _ h => h) fun _ h => h
    · rw [show (s.handle (.secretDelete name) faults).db = s.db.deleteSecret id from hdb]
      exact mountsStep_deleteSecret hin
  | secretCreate | workloadSecretCreate | secretSave | workloadSecretAttach | workloadSecretDetach => cases hr
  | _ => exact hkept (by simp)

/-- A step of a job. -/
theorem Jobs.Stepped.mountsStep {i : Input} {j j' : Running} {t : State} (h : Stepped i s j t j')
    (hin : s.db.MountsJoin) : MountsStep none s.db t.db := by
  have hsame : MountsStep none s.db s.db := mountsStep_kept hin rfl (fun _ h => h) fun _ h => h
  cases h with
  | deletedRow _ _ hdb => exact mountsStep_deleteWorkload hin hdb
  | markedWorkload _ _ hdb =>
    obtain rfl := Db.markApplied_ok hdb
    exact mountsStep_kept hin rfl (fun _ h => h) fun wid h => by rwa [Table.isSome_find?_modify]
  | markedInput | finished => exact mountsStep_kept hin rfl (fun _ h => h) fun _ h => h
  | markedSecret =>
    refine mountsStep_kept hin rfl (fun sid h => ?_) fun _ h => h
    unfold Db.markSecretApplied
    rwa [Table.isSome_find?_modify]
  | _ => exact hsame

/-- The mounts after an event of a run. -/
theorem State.step_mounts (hwf : s.db.WF) (hin : s.db.MountsJoin) (h : s.step e = some s') :
    MountsStep (e.edit State.carriesOut s) s.db s'.db := by
  cases e with
  | request r faults =>
    cases h
    rw [Event.edit_request]
    cases hr : r.editsMounts with
    | false =>
      rw [Request.edit_eq_none hr, ite_self]
      exact s.handle_mountsStep hin hr faults
    | true =>
      -- carried out, the edit is what the request asks for; else nothing was done to the mounts
      have hfs : (serve r).failsOnly (fun _ _ => true) faults s = true := failsOnly_true
      have hm := State.handle_mounts hwf hr hfs
      cases hc : s.carriesOut r faults with
      | false => exact mountsStep_kept hin (hm.idle hc) hm.rows fun wid h => by rwa [hm.workloads]
      | true =>
        obtain ⟨ed, hed, hedited⟩ := hm.edited hc
        rw [if_pos rfl, hed]
        exact mountsStep_edited hin hedited hm.rows hm.workloads
  | job i =>
    obtain ⟨j, t, j', -, hst, rfl⟩ := Jobs.step_some h
    exact hst.mountsStep hin
  | restart =>
    cases h
    obtain ⟨-, -, -, -, jobs, hdb⟩ := s.restart_frame
    rw [hdb]
    exact mountsStep_kept hin rfl (fun _ h => h) fun _ h => h

end Steps

/-! ## Every run -/

section Runs

variable {h : Host} {es : List Event} {s t : State} {sid wid : ID}

/-- The mounts of a run are those named since. -/
theorem State.run_mounts (hs : (fresh h).run es = some s) : ∀ sid wid, ⟨sid, wid⟩ ∈ s.db.secretMounts ↔
    s.db.Has sid wid ∧ Named State.carriesOut (fresh h) es sid wid := by
  -- by the last event: the rows it leaves, what it names, and what it keeps of the mounts before
  induction es using List.reverseRecOn generalizing s with
  | nil =>
    cases hs
    intro sid wid
    constructor
    · exact fun hm => nomatch hm
    · rintro ⟨-, hnamed⟩
      exact absurd hnamed Runs.not_since_nil
  | append_singleton es e ih =>
    obtain ⟨t, ht, -⟩ := Runs.exec_append_some.1 hs
    have hstep : t.step e = some s := (Runs.exec_snoc ht e).symm.trans hs
    have hmounts := ih ht
    intro sid wid
    have hmove := State.step_mounts (State.run_wf ht) (fun sid wid hm => ((hmounts sid wid).1 hm).1) hstep sid wid
    rw [hmove, Named, Runs.since_snoc ht hstep, hmounts sid wid]
    refine and_congr_right fun _ => or_congr_right ?_
    constructor
    · rintro ⟨⟨hhas, hnamed⟩, hkept⟩
      exact ⟨hnamed, hhas, hkept⟩
    · rintro ⟨hnamed, hhas, hkept⟩
      exact ⟨⟨hhas, hnamed⟩, hkept⟩

theorem Store.Db.has_of_mem {db : Db} {x : SecretRow} {w : Workload} (hx : x ∈ db.secrets) (hw : w ∈ db.workloads) :
    db.Has x.id w.id :=
  ⟨Option.isSome_iff_exists.2 ⟨x, Table.find?_mem hx⟩, Option.isSome_iff_exists.2 ⟨w, Table.find?_mem hw⟩⟩

theorem Store.Db.isSome_setWorkloadEnabled {db : Db} {id : ID} {enabled : Bool} {now : Time} :
    ((db.setWorkloadEnabled id enabled now).workloads.find? wid).isSome = (db.workloads.find? wid).isSome := by
  unfold Db.setWorkloadEnabled
  apply Table.isSome_find?_modify
  exact fun _ => rfl

/-- Regenerating an index leaves the rows and their mounts. -/
theorem RegeneratedFrom.mounts (ht : RegeneratedFrom s t) : t.db.secretMounts = s.db.secretMounts ∧
    ∀ x ∈ t.db.secrets, ∀ w ∈ t.db.workloads, s.db.Has x.id w.id := by
  cases ht with
  | apply => exact ⟨rfl, fun x hx w hw => Db.has_of_mem hx hw⟩
  | destroy hv =>
    refine ⟨rfl, fun x hx w hw => ?_⟩
    obtain ⟨hsid, hwid⟩ := Db.has_of_mem hx hw
    refine ⟨hsid, ?_⟩
    rwa [← Db.isSome_setWorkloadEnabled]

theorem RegeneratedFrom.wf (ht : RegeneratedFrom s t) (hwf : s.db.WF) : t.db.WF := by
  cases ht with
  | apply => exact hwf
  | @destroy w _ =>
    have hwritten : (s.exec (.write (.setWorkloadEnabled w.id false))).2.db.WF := exec_wf hwf
    exact hwritten

theorem deliversNamed_index (hs : (State.fresh h).run es = some s) (ht : RegeneratedFrom s t) :
    DeliversNamed (State.fresh h) es t t.db.index := by
  obtain ⟨hmounts, hhas⟩ := ht.mounts
  have hwf : t.db.WF := ht.wf (State.run_wf hs)
  have hlisted : ∀ x ∈ t.db.secrets, ∀ w ∈ t.db.workloads, ∀ key, t.db.index.delivers x.name key w.name ↔
      w.enabled = true ∧ Deliverable w.type key ∧ Named State.carriesOut (State.fresh h) es x.id w.id := by
    intro x hx w hw key
    have hnamed : ⟨x.id, w.id⟩ ∈ t.db.secretMounts ↔ Named State.carriesOut (State.fresh h) es x.id w.id := by
      rw [hmounts, State.run_mounts hs]
      exact and_iff_right (hhas x hx w hw)
    rw [index_delivers, ← hnamed]
    constructor
    · -- rows of these names are these rows
      rintro ⟨y, hy, hyname, v, hv, hvname, hen, hty, hmount⟩
      obtain rfl := hwf.secretNames y hy x hx hyname
      obtain rfl := hwf.workloadNames v hv w hw hvname
      exact ⟨hen, hty, hmount⟩
    · rintro ⟨hen, hty, hmount⟩
      exact ⟨x, hx, rfl, w, hw, rfl, hen, hty, hmount⟩
  refine ⟨hlisted, fun secret key workload hd => ?_, fun x hx w hw hout key hd => ?_, ?_⟩
  · obtain ⟨x, hx, hxname, w, hw, hwname, -⟩ := index_delivers.1 hd
    exact ⟨⟨x, hx, hxname⟩, w, hw, hwname⟩
  · obtain ⟨hen, ⟨wt, hwt, -, hsup⟩, -⟩ := (hlisted x hx w hw key).1 hd
    rcases hout with hdis | htype | hnone
    · rw [hen] at hdis
      cases hdis
    · rw [htype, show lookup "host-service" = some hostService from rfl] at hwt
      cases hwt
      cases hsup
    · rw [hnone] at hwt
      cases hwt
  · rintro x hx w hw key hd pre post u rfl hu hnot
    obtain ⟨-, -, hnamed⟩ := (hlisted x hx w hw key).1 hd
    -- both rows are there at the end, so the run has gone on since they were not
    cases post with
    | nil =>
      rw [List.append_nil] at hs
      rw [hs] at hu
      cases hu
      exact absurd (hhas x hx w hw) hnot
    | cons e post => exact Runs.Since.after hnamed hu fun hkept => hnot hkept.1

/-- What a request leaves as the index is generated from one of these states. -/
theorem State.handle_index (s : State) (r : Request) (faults : List Bool) :
    (s.handle r faults).disk.indexNix = s.disk.indexNix ∨
      ∃ t, RegeneratedFrom s t ∧ (s.handle r faults).disk.indexNix = some t.db.index := by
  rcases r.plain_or with hplain | ⟨mode, hmode⟩ | ⟨name, confirm, deleteData, rfl⟩
  · refine .inl ((s.handle_frame r faults).index fun hk => ?_)
    cases r <;> simp [Request.plain] at hplain hk
  · have hend := State.handle_ends (apply_ends hmode s) faults
    generalize s.answer r faults = a at hend
    generalize s.handle r faults = u at hend ⊢
    cases hend with
    | rejected => exact .inl rfl
    | launched hl => exact .inr ⟨s, .apply, by rw [hl.disk]; rfl⟩
    | refused => exact .inr ⟨s, .apply, rfl⟩
    | failed ht hs =>
      have hdisk := ht.index
      rcases hs with rfl | hn
      · exact hdisk.imp_right fun h => ⟨s, .apply, h⟩
      · rw [hn.disk]
        exact hdisk.imp_right fun h => ⟨s, .apply, h⟩
  · have hend := State.handle_ends (destroy_ends name confirm deleteData s) faults
    generalize s.answer _ faults = a at hend
    generalize s.handle _ faults = u at hend ⊢
    cases hend with
    | rejected => exact .inl rfl
    | disabled => exact .inl rfl
    | launched hw _ _ hl => exact .inr ⟨_, .destroy hw, by rw [hl.disk]; rfl⟩
    | refused hw => exact .inr ⟨_, .destroy hw, rfl⟩
    | failed hw _ hn => exact .inr ⟨_, .destroy hw, by rw [hn.disk]; rfl⟩

/-! ## Without failing calls -/

/-- A request none of whose calls fails carries its statement out exactly if it is answered with success. -/
theorem Event.edit_faultless (hwf : s.db.WF) {e : Event} (he : e.faultless = true) :
    e.edit State.carriesOut s = e.edit State.succeeds s := by
  cases e with
  | request r faults =>
    rw [Event.edit_request, Event.edit_request]
    cases hr : r.editsMounts with
    | false => rw [Request.edit_eq_none hr, ite_self, ite_self]
    | true =>
      -- without a failing call nothing stops the handler between the statement and its answer
      have hfs : (serve r).failsOnly (fun _ _ => false) faults s = true := by
        refine failsOnly_of_unmarked ?_
        simpa [Event.faultless] using he
      have hm := State.handle_mounts hwf hr hfs
      have hsame : s.carriesOut r faults = s.succeeds r faults := by
        rw [Bool.eq_iff_iff]
        refine ⟨fun hc => (hm.fails hc).resolve_right ?_, hm.flashes⟩
        rintro ⟨β, op, hop⟩
        cases hop
      rw [hsame]
  | job | restart => rfl

theorem named_faultless (hes : es.all Event.faultless = true) (sid wid : ID) :
    Named State.carriesOut (State.fresh h) es sid wid ↔ Named State.succeeds (State.fresh h) es sid wid := by
  have hsame : Runs.Along State.step (fun u e => e.edit State.carriesOut u = e.edit State.succeeds u)
      (State.fresh h) es := by
    refine Runs.along_iff.2 fun pre e post u hsplit hu => Event.edit_faultless (State.run_wf hu) ?_
    rw [hsplit] at hes
    exact List.all_eq_true.1 hes e (by simp)
  constructor
  · refine fun hn => hn.mono (hsame.mono fun u e he => ?_)
    rw [he]
    exact ⟨id, id⟩
  · refine fun hn => hn.mono (hsame.mono fun u e he => ?_)
    rw [he]
    exact ⟨id, id⟩

/-! ## The generated indexes -/

/-- Every index.nix generated in a run lists a workload under a secret exactly if the workload is enabled, its type
delivers secrets under that key, and the mount has been named, and not taken back, since both rows are there. Where no
call has failed, the requests carried out are those answered with success. -/
theorem index_mounts (hs : (State.fresh h).run es = some s) :
    (∀ t faults, RegeneratedFrom s t → (regenerateIndex.run.runWith faults t).1 = .ok () →
      ∃ d, (regenerateIndex.run.runWith faults t).2.disk.indexNix = some d ∧
      DeliversNamed (State.fresh h) es t d) ∧
    (∀ r faults, (s.handle r faults).disk.indexNix = s.disk.indexNix ∨ ∃ t d, RegeneratedFrom s t ∧
      (s.handle r faults).disk.indexNix = some d ∧ DeliversNamed (State.fresh h) es t d) ∧
    (es.all Event.faultless = true → ∀ sid wid, Named State.carriesOut (State.fresh h) es sid wid ↔
      Named State.succeeds (State.fresh h) es sid wid) := by
  refine ⟨fun t faults ht hok => ?_, fun r faults => ?_, named_faultless⟩
  · rcases (regenerateIndex_ends t).runWith faults with ⟨-, hdone⟩ | ⟨⟨e, hfailed⟩, -⟩
    · exact ⟨t.db.index, by rw [hdone]; rfl, deliversNamed_index hs ht⟩
    · rw [hfailed] at hok
      cases hok
  · exact (s.handle_index r faults).imp_right fun ⟨t, ht, hd⟩ =>
      ⟨t, t.db.index, ht, hd, deliversNamed_index hs ht⟩

end Runs

/-- A container that has a secret mounted is destroyed, and one of its name and id is created and enabled. -/
def recreation : List Event :=
  [createWeb, req (.secretCreate "token" ⟨"", "", "", "s3cret", ["1"]⟩), req (.workloadDestroy "web" "web" "")] ++
    jobSteps 9 ++ [createWeb, req (.workloadEnable "web")]

/-- The state the run leads to. -/
def recreated : State := ((State.fresh exampleHost).run recreation).get (by decide +kernel)

theorem index_mounts_recreated :
    (recreated.db.workloads.find? 1).any (·.enabled) = true ∧ recreated.db.index.secrets.map (·.mounts) = [[]] ∧
    (∃ d, (regenerateIndex.run.runWith [] recreated).2.disk.indexNix = some d ∧
      DeliversNamed (State.fresh exampleHost) recreation recreated d) ∧
    ∀ sid wid, Named State.carriesOut (State.fresh exampleHost) recreation sid wid ↔
      Named State.succeeds (State.fresh exampleHost) recreation sid wid := by
  have hrun : (State.fresh exampleHost).run recreation = some recreated := (Option.some_get _).symm
  obtain ⟨hgenerated, -, hsame⟩ := index_mounts hrun
  refine ⟨by decide +kernel, by decide +kernel, ?_, hsame (by decide)⟩
  exact hgenerated recreated [] .apply (by decide +kernel)

end Nixbox
