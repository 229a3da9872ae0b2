/-
How asking for the job slot ends, and with it the requests that start jobs: the two kinds of
handlers that can rebuild the system.
-/
import Nixbox.Server.Regenerate

namespace Nixbox

open Effect Prog Store Directory Server
open Nix hiding FlakeInput

/-! ## The slot -/

/-- Nothing but rows of the jobs table differs, apart from the job slot. -/
structure JobRowsOnly (s s' : State) : Prop where
  db : ∃ jobs, s'.db = { s.db with jobs := jobs }
  disk : s'.disk = s.disk
  host : s'.host = s.host

theorem JobRowsOnly.refl (s : State) : JobRowsOnly s s := ⟨⟨s.db.jobs, rfl⟩, rfl, rfl⟩

theorem JobRowsOnly.trans {a b c : State} (hab : JobRowsOnly a b) (hbc : JobRowsOnly b c) : JobRowsOnly a c := by
  obtain ⟨j, hj⟩ := hab.db
  obtain ⟨k, hk⟩ := hbc.db
  refine ⟨⟨k, ?_⟩, hbc.disk.trans hab.disk, hbc.host.trans hab.host⟩
  rw [hk, hj]

theorem JobRowsOnly.index {s s' : State} (h : JobRowsOnly s s') : s'.db.index = s.db.index := by
  obtain ⟨jobs, hdb⟩ := h.db
  rw [hdb]
  rfl

/-- A job with function `fn` and row `row` has just been started from `s`. -/
structure Launched (fn : JobFn) (row : ID) (s s' : State) : Prop extends JobRowsOnly s s' where
  free : s.busy = false
  busy : s'.busy = true
  job : s'.job = some { row := row, fn := fn, phase := .logFile }

/-- The slot was free and is free again, after an error. -/
structure NotLaunched (s s' : State) : Prop extends JobRowsOnly s s' where
  free : s.busy = false
  busy : s'.busy = false
  job : s'.job = s.job

namespace Jobs

theorem write_jobRowsOnly {α : Type} {w : Write α} {s : State} (hw : w.kind = .jobRow) :
    JobRowsOnly s (s.write w).2 ∧ (s.write w).2.busy = s.busy ∧ (s.write w).2.job = s.job := by
  unfold State.write
  cases w with
  | createJob kind wid log =>
    cases h : (Write.createJob kind wid log).run (s.host.clock s.ticks) s.db with
    | error e => exact ⟨⟨⟨s.db.jobs, rfl⟩, rfl, rfl⟩, rfl, rfl⟩
    | ok a =>
      obtain ⟨jobs, hdb⟩ := Db.createJob_frame h
      exact ⟨⟨⟨jobs, hdb⟩, rfl, rfl⟩, rfl, rfl⟩
  | setJobLogPath id log => exact ⟨⟨⟨_, rfl⟩, rfl, rfl⟩, rfl, rfl⟩
  | _ => cases hw

/-- How `Start` ends: with the job launched, refused with nothing changed, or failed with the slot
free again. -/
def Started (fn : JobFn) (s : State) : Except StartError Job → State → Prop
  | .ok job, s' => Launched fn job.id s s'
  | .error .busy, s' => s.busy = true ∧ s' = s
  | .error (.store _), s' => NotLaunched s s'

theorem giveBack_ends {fn : JobFn} {s t : State} (e : Err) (ht : JobRowsOnly s t) (hfree : s.busy = false)
    (hjob : t.job = s.job) : Ends (Started fn s) (giveBack e).run t :=
  ends_exceptT_bind.2 (ends_lift.2 (ends_perform.2
    ⟨ends_throw.2 ⟨⟨ht.db, ht.disk, ht.host⟩, hfree, rfl, hjob⟩, nofun⟩))

theorem launch_ends {kind : JobKind} {wid : Option ID} {fn : JobFn} {s t : State} (ht : JobRowsOnly s t)
    (hfree : s.busy = false) (hbusy : t.busy = true) (hjob : t.job = s.job) :
    Ends (Started fn s) (launch kind wid fn).run t := by
  have hcreate : Ends (fun _ t' => JobRowsOnly s t' ∧ t'.busy = true ∧ t'.job = s.job)
      (createJob kind wid "").run t := by
    obtain ⟨hrows, hb, hj⟩ := write_jobRowsOnly (w := .createJob kind wid "") (s := t) rfl
    have hafter := And.intro (ht.trans hrows) (And.intro (hb.trans hbusy) (hj.trans hjob))
    refine ends_exceptT_bind.2 (ends_write.2 ⟨?_, ht, hbusy, hjob⟩)
    split
    · exact ends_query.2 ⟨hafter, hafter⟩
    · exact hafter
  refine ends_exceptT_bind.2 (ends_attempt.2 (hcreate.mono fun r u hu => ?_))
  obtain ⟨hu, hub, huj⟩ := hu
  cases r with
  | error e => exact giveBack_ends e hu hfree huj
  | ok job =>
    obtain ⟨hrows, hb, hj⟩ := write_jobRowsOnly (w := .setJobLogPath job.id (jobLog job.id)) (s := u) rfl
    refine ends_exceptT_bind.2 (ends_attempt.2 (ends_write.2 ⟨?_, giveBack_ends _ hu hfree huj⟩))
    refine ends_exceptT_bind.2 (ends_lift.2 (ends_perform.2 ⟨ends_return.2 ?_, nofun⟩))
    have hv := hu.trans hrows
    exact ⟨⟨hv.db, hv.disk, hv.host⟩, hfree, hb.trans hub, rfl⟩

theorem start_ends (kind : JobKind) (wid : Option ID) (fn : JobFn) (s : State) :
    Ends (Started fn s) (start kind wid fn).run s := by
  refine ends_exceptT_bind.2 (ends_lift.2 (ends_perform.2 ⟨?_, nofun⟩))
  have hclaimed : JobRowsOnly s { s with busy := true } := ⟨⟨s.db.jobs, rfl⟩, rfl, rfl⟩
  dsimp only
  split
  · rename_i hc
    have hfree : s.busy = false := by simpa using (show (!s.busy) = true from hc)
    exact launch_ends hclaimed hfree rfl rfl
  · rename_i hc
    have hbusy : s.busy = true := by
      cases hb : s.busy with
      | true => rfl
      | false => exact absurd (show (!s.busy) = true by rw [hb]; rfl) hc
    refine ends_throw.2 ⟨hbusy, ?_⟩
    show ({ s with busy := true } : State) = s
    rw [← hbusy]

end Jobs

/-! ## Apply requests -/

namespace Server

/-- The function of the job an apply request asks for. -/
def applyFn (mode : RebuildMode) (s : State) : JobFn :=
  .apply mode (snapshot s).1 (snapshot s).2.1 (snapshot s).2.2

theorem startApply_ends (wid : Option ID) (mode : RebuildMode) (s : State) :
    Ends (fun r s' => match r with
      | .ok job => Launched (applyFn mode s) job.id s.prepared s'
      | .error .busy => s.busy = true ∧ s' = s.prepared
      | .error (.store _) => ∃ t, PartlyPrepared s t ∧ (s' = t ∨ NotLaunched t s'))
      (startApply wid mode).run s := by
  refine ends_exceptT_bind.2 (ends_adapt.2 ((prepareApply_ends s).mono fun r t ht => ?_))
  cases r with
  | error e => exact ⟨t, ht, .inl rfl⟩
  | ok snap =>
    obtain ⟨rfl, rfl⟩ := ht
    refine (Jobs.start_ends _ wid (applyFn mode s) s.prepared).mono fun r s' h => ?_
    match r, h with
    | .ok job, h => exact h
    | .error .busy, h => exact h
    | .error (.store e), h => exact ⟨s.prepared, partlyPrepared_prepared s, .inr h⟩

/-- The requests answered by `startApply`, with the mode of the rebuild. -/
def Request.applyMode : Request → Option RebuildMode
  | .workloadApply _ mode | .flakeApply mode | .secretApply mode => some (formMode mode)
  | .rebuild => some .switch
  | _ => none

/-- An answer that is neither the refusal nor the log of a started job. -/
def Response.plain : Response → Bool
  | .error code _ => code != 409
  | .jobLog .. => false
  | _ => true

/-- How an apply request is handled: answered before anything is written, accepted, refused with
the state directory regenerated, or failed on the way. -/
inductive ApplyHandled (mode : RebuildMode) (s : State) : Response → State → Prop
  | rejected {a : Response} (ha : a.plain = true) : ApplyHandled mode s a s
  | launched {page : String} {job : Job} {s' : State} (h : Launched (applyFn mode s) job.id s.prepared s') :
    ApplyHandled mode s (.jobLog page job) s'
  | refused (h : s.busy = true) : ApplyHandled mode s .busy s.prepared
  | failed {e : Err} {t s' : State} (ht : PartlyPrepared s t) (h : s' = t ∨ NotLaunched t s') :
    ApplyHandled mode s (.serverError e) s'

theorem ends_answer {F : ∀ β : Type, Op β → Bool} {h : Handler Response} {s : State}
    {Q : Response → State → Prop} :
    EndsIf F Q h.answer s ↔ EndsIf F (fun r s' => match r with
      | .ok a => Q a s'
      | .error a => Q a s') h.run s := by
  unfold Handler.answer
  rw [ends_bind]
  constructor <;> refine fun hq => hq.mono fun r s' hr => ?_
  · match r, hr with
    | .ok a, hr => show Q a s'; exact ends_pure.1 hr
    | .error a, hr => show Q a s'; exact ends_pure.1 hr
  · match r, hr with
    | .ok a, hr => exact ends_pure.2 hr
    | .error a, hr => exact ends_pure.2 hr

/-- What holds of the state however a handler ends holds after the request. -/
theorem ends_answer_of {F : ∀ β : Type, Op β → Bool} {h : Handler Response} {s : State} {P : State → Prop}
    (hh : EndsIf F (fun _ => P) h.run s) : EndsIf F (fun _ => P) h.answer s := by
  refine ends_answer.2 (hh.mono fun r s' hs' => ?_)
  cases r with
  | ok _ => exact hs'
  | error _ => exact hs'

theorem answerStartApply_ends (page : String) (wid : Option ID) (mode : RebuildMode) (s : State) :
    Ends (fun r s' => match r with
      | .ok a => ApplyHandled mode s a s'
      | .error a => ApplyHandled mode s a s') (answerJob page (startApply wid mode)).run s := by
  refine ends_answerJob.2 ((startApply_ends wid mode s).mono fun r s' h => ?_)
  match r, h with
  | .ok job, h => exact .launched h
  | .error .busy, ⟨hb, hs⟩ => subst hs; exact .refused hb
  | .error (.store e), ⟨t, ht, h⟩ => exact .failed ht h

/-- Answers of the lookups are neither the refusal nor a job log. -/
theorem lookupWorkload_ends (name : String) (s : State) :
    Ends (fun r s' => s' = s ∧ match r with
      | .ok w => w ∈ s.db.workloads ∧ w.name = name
      | .error a => a.plain = true) (lookupWorkload name).run s := by
  unfold lookupWorkload lookupBy
  split
  · exact ends_throw.2 ⟨rfl, rfl⟩
  · refine ends_exceptT_bind.2 (ends_attempt.2 (ends_query.2 ⟨?_, ends_throw.2 ⟨rfl, rfl⟩⟩))
    cases hw : s.db.workloadByName name with
    | ok w => exact ends_return.2 ⟨rfl, workloadByName_ok hw⟩
    | error e =>
      cases e with
      | notFound => exact ends_throw.2 ⟨rfl, rfl⟩
      | failed => exact ends_throw.2 ⟨rfl, rfl⟩

theorem apply_ends {r : Request} {mode : RebuildMode} (hr : r.applyMode = some mode) (s : State) :
    Ends (ApplyHandled mode s) (serve r) s := by
  refine ends_answer.2 ?_
  cases r with
  | workloadApply name m =>
    cases hr
    refine ends_exceptT_bind.2 ((lookupWorkload_ends name s).mono fun r s' h => ?_)
    obtain ⟨rfl, h⟩ := h
    cases r with
    | ok w => exact answerStartApply_ends _ _ _ _
    | error a => exact .rejected h
  | flakeApply m | secretApply m | rebuild => cases hr; exact answerStartApply_ends _ _ _ _
  | _ => cases hr

/-- Applying a workload there is none of changes nothing. -/
theorem applyUnknown_ends {name mode : String} {s : State} (h : ∀ w ∈ s.db.workloads, w.name ≠ name) :
    Ends (fun _ s' => s' = s) (serve (.workloadApply name mode)) s := by
  refine ends_answer.2 (ends_exceptT_bind.2 ((lookupWorkload_ends name s).mono fun r s' hl => ?_))
  obtain ⟨rfl, hl⟩ := hl
  cases r with
  | ok w => exact absurd hl.2 (h w hl.1)
  | error a => rfl

/-! ## Destroy requests -/

end Server

/-- The state with a workload disabled. -/
def State.disabled (s : State) (id : ID) : State :=
  { s with
    db := s.db.setWorkloadEnabled id false (s.host.clock s.ticks)
    ticks := s.ticks + 1 }

namespace Server

/-- The function of the job a destroy request asks for. -/
def destroyFn (w : Workload) (deleteData : String) : JobFn :=
  .destroy w.name w.id w.type (deleteData == "on")

/-- How a destroy request is handled: answered before anything is written, stopped with the
workload disabled, or with it disabled and the index regenerated and then as `Start` ends. -/
inductive DestroyHandled (name confirm deleteData : String) (s : State) : Response → State → Prop
  | rejected {a : Response} (ha : a.plain = true) : DestroyHandled name confirm deleteData s a s
  | disabled {w : Workload} {e : Err} (hw : w ∈ s.db.workloads) (hname : w.name = name) :
    DestroyHandled name confirm deleteData s (.serverError e) (s.disabled w.id)
  | launched {w : Workload} {page : String} {job : Job} {s' : State} (hw : w ∈ s.db.workloads)
    (hname : w.name = name) (hconfirm : confirm = name)
    (h : Launched (destroyFn w deleteData) job.id (s.disabled w.id).reindexed s') :
    DestroyHandled name confirm deleteData s (.jobLog page job) s'
  | refused {w : Workload} (hw : w ∈ s.db.workloads) (hname : w.name = name) (hconfirm : confirm = name)
    (h : s.busy = true) : DestroyHandled name confirm deleteData s .busy (s.disabled w.id).reindexed
  | failed {w : Workload} {e : Err} {s' : State} (hw : w ∈ s.db.workloads) (hname : w.name = name)
    (h : NotLaunched (s.disabled w.id).reindexed s') :
    DestroyHandled name confirm deleteData s (.serverError e) s'

theorem destroy_ends (name confirm deleteData : String) (s : State) :
    Ends (DestroyHandled name confirm deleteData s) (serve (.workloadDestroy name confirm deleteData)) s := by
  refine ends_answer.2 (ends_exceptT_bind.2 ((lookupWorkload_ends name s).mono fun r s' h => ?_))
  obtain ⟨rfl, h⟩ := h
  cases r with
  | error a => exact .rejected h
  | ok w =>
    obtain ⟨hw, hname⟩ := h
    dsimp only
    split
    case isFalse => exact ends_throw.2 (.rejected rfl)
    rename_i hconfirm
    refine ends_exceptT_bind.2 (ends_orError.2 (ends_write.2 ⟨?_, .rejected rfl⟩))
    refine ends_exceptT_bind.2 (ends_orError.2 ((regenerateIndex_ends _).mono fun r t ht => ?_))
    rcases ht with ⟨rfl, rfl⟩ | ⟨⟨e, rfl⟩, rfl⟩
    case inr => exact .disabled hw hname
    refine ends_answerJob.2 ((Jobs.start_ends .apply (some w.id) (destroyFn w deleteData)
      (s'.disabled w.id).reindexed).mono fun r t ht => ?_)
    match r, ht with
    | .ok job, ht => exact .launched hw hname (hconfirm.trans hname) ht
    | .error .busy, ⟨hb, ht⟩ => subst ht; exact .refused hw hname (hconfirm.trans hname) hb
    | .error (.store e), ht => exact .failed hw hname ht

/-! ## Every other request -/

/-- A request that neither applies nor destroys. -/
def Request.plain (r : Request) : Bool := !r.kinds.contains .slot

/-- A request either is plain, or applies, or destroys. -/
theorem Request.plain_or (r : Request) : r.plain = true ∨ (∃ mode, r.applyMode = some mode) ∨
    ∃ name confirm deleteData, r = .workloadDestroy name confirm deleteData := by
  cases r with
  | workloadApply name mode => exact .inr (.inl ⟨_, rfl⟩)
  | flakeApply mode | secretApply mode => exact .inr (.inl ⟨_, rfl⟩)
  | rebuild => exact .inr (.inl ⟨_, rfl⟩)
  | workloadDestroy name confirm deleteData => exact .inr (.inr ⟨_, _, _, rfl⟩)
  | _ => exact .inl rfl

end Server

end Nixbox
