/-
The deletions of a destroy job. They are safe when no index.nix references the workload any more:
neither the one the rebuild picked up nor the one on disk. The request that starts the job
regenerates index.nix without the workload; what can bring it back is a later regeneration that
finds it enabled again.
-/
import Nixbox.Service.Frames

namespace Nixbox

open Effect Store Server Keyed
open Nix hiding FlakeInput

/-! ## Definitions -/

/-- A running destroy job of the workload `name`. -/
def Running.destroys (j : Running) (name : String) : Prop :=
  j.phase ≠ .exited ∧ ∃ id type deleteData, j.fn = .destroy name id type deleteData

/-- The next step of the job deletes the row, the directory, or the data directory. -/
def Phase.deletes (p : Phase) : Prop := p = .deleteRow ∨ p = .removeDir ∨ p = .removeData

/-- The name of the workload whose destroy job is in flight. -/
def State.destroying (s : State) : Option String :=
  match s.job with
  | some j =>
    match j.fn with
    | .destroy name .. => if j.phase = .exited then none else some name
    | .apply .. => none
  | none => none

/-- The request regenerates index.nix with the workload `name` still as its row has it: an apply,
accepted or not, or a confirmed destroy of another workload. -/
def Server.Request.regenerates (s : State) (name : String) : Request → Bool
  | .workloadApply n _ => s.db.workloads.rows.any (·.name == n)
  | .flakeApply _ | .secretApply _ | .rebuild => true
  | .workloadDestroy n confirm _ => n != name && confirm == n && s.db.workloads.rows.any (·.name == n)
  | _ => false

/-- An enabled workload has this name. -/
def Store.Db.enabledNamed (db : Db) (name : String) : Bool :=
  db.workloads.rows.any fun w => w.name == name && w.enabled

/-- The condition on a request: while a destroy job is in flight, it regenerates index.nix only
when no enabled workload has the name being destroyed. -/
def destroyUndisturbed (s : State) : Event → Bool
  | .request r _ => s.destroying.all fun name => !(r.regenerates s name && s.db.enabledNamed name)
  | _ => true

/-! ## The regenerated index -/

theorem enabledNamed_of_lists {db : Db} {name : String} (h : db.index.lists name) : db.enabledNamed name = true := by
  obtain ⟨w, hw, hname, hen, -⟩ := Db.index_lists.1 h
  exact List.any_eq_true.2 ⟨w, hw, by simp [hname, hen]⟩

/-- Without the workload just disabled, the index lists what it listed. -/
theorem disabled_lists {s : State} {w : Workload} (hwf : s.db.WF) (hw : w ∈ s.db.workloads) {name : String}
    (h : (s.disabled w.id).db.index.lists name) : name ≠ w.name ∧ s.db.enabledNamed name = true := by
  obtain ⟨x, hx, hname, hen, -⟩ := Db.index_lists.1 h
  rcases Db.mem_setWorkloadEnabled.1 hx with ⟨hx, hid⟩ | ⟨y, -, -, rfl⟩
  · refine ⟨fun heq => hid ?_, List.any_eq_true.2 ⟨x, hx, by simp [hname, hen]⟩⟩
    rw [hwf.workloadNames x hx w hw (hname.trans heq)]
  · cases hen

/-! ## Every step -/

/-- No index.nix that matters to the destroy job in flight lists its workload. -/
structure DestroyClear (s : State) : Prop where
  disk : ∀ {j name}, s.job = some j → j.destroys name → ¬ s.disk.lists name
  picked : ∀ {j name p}, s.job = some j → j.destroys name → j.picked = some p → ¬ p.lists name
  rebuilt : ∀ {j name}, s.job = some j → j.destroys name → j.phase = .switch ∨ j.phase.deletes →
    j.picked.isSome

theorem State.destroying_of_job {s : State} {j : Running} {name : String} (hj : s.job = some j)
    (hd : j.destroys name) : s.destroying = some name := by
  obtain ⟨hp, id, type, deleteData, hfn⟩ := hd
  unfold State.destroying
  rw [hj]
  dsimp only
  rw [hfn]
  exact if_neg hp

/-- A request that leaves the job and keeps off the list what is being destroyed. -/
theorem DestroyClear.kept {s s' : State} (h : DestroyClear s) (hjob : s'.job = s.job)
    (hlist : ∀ name, s.destroying = some name → ¬ s.disk.lists name → ¬ s'.disk.lists name) :
    DestroyClear s' where
  disk {j name} hj hd := by
    rw [hjob] at hj
    exact hlist name (State.destroying_of_job hj hd) (h.disk hj hd)
  picked {j name p} hj hd hp := h.picked (hjob ▸ hj) hd hp
  rebuilt {j name} hj hd hp := h.rebuilt (hjob ▸ hj) hd hp

/-- A job that has just been started. -/
theorem DestroyClear.launched {s' : State} {fn : JobFn} {row : ID}
    (hjob : s'.job = some { row := row, fn := fn, phase := .logFile })
    (hdisk : ∀ {name id type deleteData}, fn = .destroy name id type deleteData → ¬ s'.disk.lists name) :
    DestroyClear s' := by
  constructor
  · intro j name hj hd
    obtain rfl := Option.some.inj (hjob.symm.trans hj)
    obtain ⟨-, id, type, deleteData, hfn⟩ := hd
    exact hdisk hfn
  · intro j name p hj hd hp
    obtain rfl := Option.some.inj (hjob.symm.trans hj)
    cases hp
  · intro j name hj hd hp
    obtain rfl := Option.some.inj (hjob.symm.trans hj)
    rcases hp with hp | hp | hp | hp <;> cases hp

theorem State.not_inFlight {s : State} (h : s.inFlight = false) : s.destroying = none := by
  unfold State.destroying
  unfold State.inFlight at h
  cases hj : s.job with
  | none => rfl
  | some j =>
    rw [hj, Option.any_some] at h
    dsimp only
    split
    · exact if_pos (by simpa using h)
    · rfl

/-- An apply request regenerates index.nix or, naming no workload, does nothing. -/
theorem apply_regenerates {r : Request} {mode : RebuildMode} (hmode : r.applyMode = some mode) (s : State) :
    (∀ name, r.regenerates s name = true) ∨ ∀ faults, s.handle r faults = s := by
  cases r with
  | workloadApply n m =>
    cases hany : s.db.workloads.rows.any (·.name == n) with
    | true => exact .inl fun _ => hany
    | false =>
      refine .inr fun faults => State.handle_ends (applyUnknown_ends fun w hw => ?_) faults
      simpa using List.any_eq_false.1 hany w hw
  | flakeApply | secretApply | rebuild => exact .inl fun _ => rfl
  | _ => cases hmode

theorem not_enabledNamed {s : State} {r : Request} {faults : List Bool} {name : String}
    (hguard : destroyUndisturbed s (.request r faults) = true) (hd : s.destroying = some name)
    (hr : r.regenerates s name = true) : s.db.enabledNamed name = false := by
  have hall : s.destroying.all (fun name => !(r.regenerates s name && s.db.enabledNamed name)) = true := hguard
  rw [hd, Option.all_some, hr, Bool.true_and] at hall
  simpa using hall

theorem destroyClear_apply {s : State} {r : Request} {mode : RebuildMode} {faults : List Bool}
    (hmode : r.applyMode = some mode) (hguard : destroyUndisturbed s (.request r faults) = true)
    (h : DestroyClear s) : DestroyClear (s.handle r faults) := by
  rcases apply_regenerates hmode s with hreg | hsame
  case inr => rw [hsame faults]; exact h
  -- index.nix is as it was or regenerated, and then without what is being destroyed
  have hindex : ∀ (s' : State) name, s.destroying = some name → s'.disk.indexNix = s.disk.indexNix ∨
      s'.disk.indexNix = some s.db.index → ¬ s.disk.lists name → ¬ s'.disk.lists name := by
    intro s' name hd hi hnot hl
    rcases hi with hi | hi
    · exact hnot (lists_of_index hi hl)
    · have hen := enabledNamed_of_lists (lists_some hi hl)
      rw [not_enabledNamed hguard hd (hreg name)] at hen
      cases hen
  have hend := State.handle_ends (apply_ends hmode s) faults
  generalize s.answer r faults = a at hend
  generalize s.handle r faults = s' at hend ⊢
  cases hend with
  | rejected => exact h
  | launched hl =>
    refine .launched hl.job fun hfn => ?_
    cases hfn
  | refused => exact h.kept rfl fun name hd => hindex _ name hd (.inr rfl)
  | failed ht hs =>
    rcases hs with rfl | hn
    · exact h.kept ht.job fun name hd => hindex _ name hd ht.index
    · refine h.kept (hn.job.trans ht.job) fun name hd => hindex _ name hd ?_
      rw [hn.disk]
      exact ht.index

theorem destroyClear_destroy {s : State} {name confirm deleteData : String} {faults : List Bool}
    (hguard : destroyUndisturbed s (.request (.workloadDestroy name confirm deleteData) faults) = true)
    (hwf : s.db.WF) (hslot : s.SlotHeld) (h : DestroyClear s) :
    DestroyClear (s.handle (.workloadDestroy name confirm deleteData) faults) := by
  have hend := State.handle_ends (destroy_ends name confirm deleteData s) faults
  generalize s.answer _ faults = a at hend
  generalize s.handle _ faults = s' at hend ⊢
  cases hend with
  | rejected => exact h
  | disabled => exact h.kept rfl fun _ _ hnot => hnot
  | launched hw hname hconfirm hl =>
    refine .launched hl.job fun hfn hlist => ?_
    cases hfn
    rw [hl.disk] at hlist
    exact (disabled_lists hwf hw (lists_some rfl hlist)).1 rfl
  | @refused w hw hname hconfirm hbusy =>
    refine h.kept rfl fun n hd hnot hlist => ?_
    obtain ⟨hne, hen⟩ := disabled_lists hwf hw (lists_some rfl hlist)
    have hreg : (Request.workloadDestroy name confirm deleteData).regenerates s n = true := by
      have hany : s.db.workloads.rows.any (·.name == name) = true := List.any_eq_true.2 ⟨w, hw, by simp [hname]⟩
      rw [hname] at hne
      simp [Request.regenerates, hany, hconfirm, Ne.symm hne]
    rw [not_enabledNamed hguard hd hreg] at hen
    cases hen
  | failed hw hname hn =>
    -- the slot was free, so no job is in flight
    have hidle : s.inFlight = false := by
      cases hfl : s.inFlight with
      | false => rfl
      | true => exact absurd (hslot hfl) (by rw [show s.busy = false from hn.free]; exact nofun)
    refine h.kept hn.job fun n hd => ?_
    rw [State.not_inFlight hidle] at hd
    cases hd

/-- Past the refresh of a destroy job the rebuild has picked a state directory up. -/
theorem rebuilt_stepped {i : Jobs.Input} {s s' : State} {j j' : Running} {name : String}
    (hst : Jobs.Stepped i s j s' j') (hd : j'.destroys name)
    (h : j.phase = .switch ∨ j.phase.deletes → j.picked.isSome)
    (hp : j'.phase = .switch ∨ j'.phase.deletes) : j'.picked.isSome := by
  obtain ⟨-, id, type, deleteData, hfn⟩ := hd
  rw [hst.frame.1] at hfn
  -- the phases left out of the cases below are not among those of `hp`
  have hout : ∀ {p : Phase}, j'.phase = p → p ≠ .switch → p ≠ .deleteRow →
    p ≠ .removeDir → p ≠ .removeData →
      j'.picked.isSome := by
    intro p hp' h1 h2 h3 h4
    rw [hp'] at hp
    rcases hp with hp | hp | hp | hp
    · exact absurd hp h1
    · exact absurd hp h2
    · exact absurd hp h3
    · exact absurd hp h4
  cases hst with
  | opened => exact hout (show Jobs.begin j.fn = .stop by rw [hfn]; rfl) nofun nofun nofun nofun
  | stopped | locked | markedWorkload | markedInput | markedSecret | markedAll | markFailed | removedData
  | gaveUp | finished | notFinished | released => exact hout rfl nofun nofun nofun nofun
  | lockFailed _ hr | refreshFailed _ hr | switchFailed _ hr =>
    exact hout (Jobs.rebuildReturned_bad hr).1 nofun nofun nofun nofun
  | refreshed => rfl
  | switched hp' =>
    rw [Jobs.rebuildReturned_frame.2.2.1]
    exact h (.inl hp')
  | deletedRow hp' => exact h (.inr (.inl hp'))
  | removedDir hp' => exact h (.inr (.inr (.inl hp')))

theorem destroyClear_job {i : Jobs.Input} {s s' : State} {j j' : Running} (hst : Jobs.Stepped i s j s' j')
    (hj : s.job = some j) (h : DestroyClear s) : DestroyClear { s' with job := some j' } := by
  obtain ⟨hfn, -, -, hindex, -, -⟩ := hst.frame
  have hwas : ∀ {name}, j'.destroys name → j.destroys name := by
    rintro name ⟨-, id, type, deleteData, hfn'⟩
    exact ⟨hst.running, id, type, deleteData, by rw [← hfn, hfn']⟩
  constructor
  · intro k name hk hd hl
    cases hk
    exact h.disk hj (hwas hd) (lists_of_index hindex hl)
  · intro k name p hk hd hp hl
    cases hk
    rcases hst.picked with hsame | ⟨-, hnew⟩
    · exact h.picked hj (hwas hd) (hsame ▸ hp) hl
    · rw [hnew] at hp
      cases hp
      exact h.disk hj (hwas hd) hl
  · intro k name hk hd hp
    cases hk
    exact rebuilt_stepped hst hd (h.rebuilt hj (hwas hd)) hp

theorem destroyClear_restart (s : State) : DestroyClear s.restart := by
  have hjob : s.restart.job = none := s.restart_frame.2.1
  constructor <;> intros <;> simp_all

theorem destroyClear_step {s s' : State} {e : Event} (hguard : destroyUndisturbed s e = true) (hwf : s.db.WF)
    (hslot : s.SlotHeld) (h : DestroyClear s) (hs : s.step e = some s') : DestroyClear s' := by
  cases e with
  | restart => cases hs; exact destroyClear_restart s
  | job i =>
    obtain ⟨j, t, j', hj, hst, rfl⟩ := Jobs.step_some hs
    exact destroyClear_job hst hj h
  | request r faults =>
    cases hs
    rcases r.plain_or with hplain | ⟨mode, hmode⟩ | ⟨name, confirm, deleteData, rfl⟩
    · have hk : Kind.slot ∉ r.kinds := by simpa [Request.plain] using hplain
      have hframe := s.handle_frame r faults
      have hi : Kind.index ∉ r.kinds := by cases r <;> simp_all
      exact h.kept (hframe.slot hk).2 fun _ _ hnot hl => hnot (lists_of_index (hframe.index hi) hl)
    · exact destroyClear_apply hmode hguard h
    · exact destroyClear_destroy hguard hwf hslot h

/-! ## Every run -/

/-- In every run whose requests, while a destroy job is in flight, regenerate index.nix only when its
workload is not enabled again: when the job deletes, neither the index.nix its rebuild picked up nor
the one on disk lists the workload. -/
theorem destroy_deletes_unlisted {h : Host} {es : List Event} {s : State} {j : Running} {name : String}
    (hguard : Runs.Along State.step (fun s e => destroyUndisturbed s e = true) (State.fresh h) es)
    (hs : (State.fresh h).run es = some s) (hj : s.job = some j) (hd : j.destroys name) (hp : j.phase.deletes) :
    (∃ p, j.picked = some p ∧ ¬ p.lists name) ∧ ¬ s.disk.lists name := by
  have hinit : (State.fresh h).db.WF ∧ (State.fresh h).SlotHeld ∧ DestroyClear (State.fresh h) :=
    ⟨Db.wf_empty, (fun hfl => by cases hfl), nofun, nofun, nofun⟩
  obtain ⟨-, -, hclear⟩ := Runs.exec_inv (I := fun s : State => s.db.WF ∧ s.SlotHeld ∧ DestroyClear s)
    (fun s e s' hp hI hst => ⟨State.step_wf hI.1 hst, State.step_slotHeld hI.2.1 hst,
      destroyClear_step hp hI.1 hI.2.1 hI.2.2 hst⟩) hguard hinit hs
  obtain ⟨p, hpick⟩ := Option.isSome_iff_exists.1 (hclear.rebuilt hj hd (.inr hp))
  exact ⟨⟨p, hpick, hclear.picked hj hd hpick⟩, hclear.disk hj hd⟩

/-- A workload enabled again while its destroy job runs, and a rebuild that is refused. -/
def enabledDuringDestroy : List Event :=
  [createWeb, req (.workloadDestroy "web" "web" "on")] ++ jobSteps 2 ++
    [req (.workloadEnable "web"), req .rebuild] ++ jobSteps 3

/-- The job about to delete, in the state `enabledDuringDestroy` leads to. -/
def destroyDisturbed : State := ((State.fresh exampleHost).run enabledDuringDestroy).get (by decide +kernel)

/-- There the rebuild has picked up, and the disk still has, an index.nix that lists the workload. -/
theorem destroy_deletes_listed : ¬ ∀ (s : State) (j : Running) (name : String), s.Reachable → s.job = some j →
    j.destroys name → j.phase.deletes → (∃ p, j.picked = some p ∧ ¬ p.lists name) ∧
    ¬ s.disk.lists name := by
  intro hall
  have hjob : (destroyDisturbed.job.any fun j => j.phase == .deleteRow &&
      j.fn == .destroy "web" 1 "nixos-container" true) = true := by decide +kernel
  obtain ⟨j, hj, hfields⟩ := (Option.any_eq_true _ _).1 hjob
  simp only [Bool.and_eq_true, beq_iff_eq] at hfields
  obtain ⟨hphase, hfn⟩ := hfields
  have hclear := hall destroyDisturbed j "web" (State.reachable_run _) hj
    ⟨by rw [hphase]; exact nofun, _, _, _, hfn⟩
    (.inl hphase)
  exact absurd hclear.2 (not_not_intro (by decide +kernel))

/-- The same destroy left alone. -/
def destroyAlone : List Event := [createWeb, req (.workloadDestroy "web" "web" "on")] ++ jobSteps 5

theorem destroyAlone_deletes_unlisted :
    ¬ (((State.fresh exampleHost).run destroyAlone).get (by decide +kernel)).disk.lists "web" := by
  have hjob : ((((State.fresh exampleHost).run destroyAlone).get (by decide +kernel)).job.any fun j =>
      j.phase == .deleteRow && j.fn == .destroy "web" 1 "nixos-container" true) = true := by decide +kernel
  obtain ⟨j, hj, hfields⟩ := (Option.any_eq_true _ _).1 hjob
  simp only [Bool.and_eq_true, beq_iff_eq] at hfields
  obtain ⟨hphase, hfn⟩ := hfields
  exact (destroy_deletes_unlisted (by decide +kernel) (Option.some_get _).symm hj
    ⟨by rw [hphase]; exact nofun, _, _, _, hfn⟩ (.inl hphase)).2

end Nixbox
