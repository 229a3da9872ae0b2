/-
What a request leaves as it was, read off from the kinds of calls it makes, and the invariants
every request and every step of a job keep.
-/
import Nixbox.Server.Launch
import Nixbox.Jobs.Steps

namespace Nixbox

open Effect Prog Store Server Keyed
open Nix hiding FlakeInput

/-! ## Frames -/

/-- Calls of the kinds `ks` lead from `s` to `s'`: what no such call writes is unchanged. -/
structure Frame (ks : List Kind) (s s' : State) : Prop where
  host : s'.host = s.host
  index : .index ∉ ks → s'.disk.indexNix = s.disk.indexNix
  flake : .flake ∉ ks → s'.disk.flakeNix = s.disk.flakeNix
  workloads : .workloadFile ∉ ks → s'.disk.workloads = s.disk.workloads
  secrets : .secretFile ∉ ks → .prune ∉ ks → s'.disk.secrets = s.disk.secrets
  slot : .slot ∉ ks → s'.busy = s.busy ∧ s'.job = s.job
  revisions : .revision ∉ ks → s'.db.revisions = s.db.revisions
  workloadRows : .revision ∉ ks → .workloadRow ∉ ks → s'.db.workloads = s.db.workloads
  inputRows : .flakeRow ∉ ks → s'.db.flakeInputs = s.db.flakeInputs
  secretRows : .secretRow ∉ ks → s'.db.secrets = s.db.secrets ∧ s'.db.secretMounts = s.db.secretMounts

namespace Frame

variable {ks : List Kind} {a b c : State}

theorem refl (s : State) : Frame ks s s :=
  ⟨rfl, fun _ => rfl, fun _ => rfl, fun _ => rfl, fun _ _ => rfl, fun _ => ⟨rfl, rfl⟩, fun _ => rfl,
    fun _ _ => rfl, fun _ => rfl, fun _ => ⟨rfl, rfl⟩⟩

theorem trans (h : Frame ks a b) (h' : Frame ks b c) : Frame ks a c where
  host := h'.host.trans h.host
  index hk := (h'.index hk).trans (h.index hk)
  flake hk := (h'.flake hk).trans (h.flake hk)
  workloads hk := (h'.workloads hk).trans (h.workloads hk)
  secrets hk hk' := (h'.secrets hk hk').trans (h.secrets hk hk')
  slot hk := ⟨(h'.slot hk).1.trans (h.slot hk).1, (h'.slot hk).2.trans (h.slot hk).2⟩
  revisions hk := (h'.revisions hk).trans (h.revisions hk)
  workloadRows hk hk' := (h'.workloadRows hk hk').trans (h.workloadRows hk hk')
  inputRows hk := (h'.inputRows hk).trans (h.inputRows hk)
  secretRows hk := ⟨(h'.secretRows hk).1.trans (h.secretRows hk).1, (h'.secretRows hk).2.trans (h.secretRows hk).2⟩

end Frame

/-- What a statement leaves of the database, by its kind. -/
structure RowFrame (k : Kind) (db db' : Db) : Prop where
  revisions : k ≠ .revision → db'.revisions = db.revisions
  workloads : k ≠ .revision → k ≠ .workloadRow → db'.workloads = db.workloads
  inputs : k ≠ .flakeRow → db'.flakeInputs = db.flakeInputs
  secrets : k ≠ .secretRow → db'.secrets = db.secrets ∧ db'.secretMounts = db.secretMounts

theorem Write.run_frame {α : Type} {w : Write α} {now : Time} {db db' : Db} {a : α}
    (h : w.run now db = .ok (a, db')) : RowFrame w.kind db db' := by
  cases w with
  | createWorkload name displayName typ content ports =>
    change db.createWorkload name displayName typ content ports now = _ at h
    obtain ⟨-, rfl, rfl⟩ := Db.createWorkload_ok h
    -- what the kind of the statement excepts is what it may change
    exact ⟨fun hk => absurd rfl hk, fun hk => absurd rfl hk, fun _ => rfl, fun _ => ⟨rfl, rfl⟩⟩
  | saveRevision wid content ports note =>
    change db.saveRevision wid content ports note now = _ at h
    obtain ⟨-, rfl, rfl⟩ := Db.saveRevision_ok h
    exact ⟨fun hk => absurd rfl hk, fun hk => absurd rfl hk, fun _ => rfl, fun _ => ⟨rfl, rfl⟩⟩
  | setWorkloadEnabled | setWorkloadDisplayName =>
    cases h
    exact ⟨fun _ => rfl, fun _ hk => absurd rfl hk, fun _ => rfl, fun _ => ⟨rfl, rfl⟩⟩
  | createJob =>
    obtain ⟨jobs, rfl⟩ := Db.createJob_frame h
    exact ⟨fun _ => rfl, fun _ _ => rfl, fun _ => rfl, fun _ => ⟨rfl, rfl⟩⟩
  | setJobLogPath =>
    cases h
    exact ⟨fun _ => rfl, fun _ _ => rfl, fun _ => rfl, fun _ => ⟨rfl, rfl⟩⟩
  | createFlakeInput name url follows =>
    change db.createFlakeInput name url follows now = _ at h
    obtain ⟨-, rfl, rfl⟩ := Db.createFlakeInput_ok h
    exact ⟨fun _ => rfl, fun _ _ => rfl, fun hk => absurd rfl hk, fun _ => ⟨rfl, rfl⟩⟩
  | updateFlakeInput | deleteFlakeInput =>
    cases h
    exact ⟨fun _ => rfl, fun _ _ => rfl, fun hk => absurd rfl hk, fun _ => ⟨rfl, rfl⟩⟩
  | createSecret name owner group mode wids =>
    change db.createSecret name owner group mode wids now = _ at h
    obtain ⟨-, rfl, hrep⟩ := Db.createSecret_ok h
    obtain ⟨m, rfl⟩ := Db.replaceMounts_frame hrep
    exact ⟨fun _ => rfl, fun _ _ => rfl, fun _ => rfl, fun hk => absurd rfl hk⟩
  | updateSecret =>
    obtain ⟨m, rfl⟩ := Db.replaceMounts_frame (Db.unit_ok h)
    exact ⟨fun _ => rfl, fun _ _ => rfl, fun _ => rfl, fun hk => absurd rfl hk⟩
  | insertMountOrIgnore =>
    obtain ⟨m, rfl⟩ := Db.insertMountOrIgnore_frame h
    exact ⟨fun _ => rfl, fun _ _ => rfl, fun _ => rfl, fun hk => absurd rfl hk⟩
  | deleteMount | touchSecret | deleteSecret =>
    cases h
    exact ⟨fun _ => rfl, fun _ _ => rfl, fun _ => rfl, fun hk => absurd rfl hk⟩

/-- A statement changes rows and the reading count only. -/
theorem State.write_cases {α : Type} (s : State) (w : Write α) : ∃ db, (s.write w).2 =
    { s with db := db, ticks := s.ticks + 1 } ∧
      (db = s.db ∨ ∃ a, w.run (s.host.clock s.ticks) s.db = .ok (a, db)) := by
  unfold State.write
  cases h : w.run (s.host.clock s.ticks) s.db with
  | ok a => exact ⟨a.2, rfl, .inr ⟨a.1, rfl⟩⟩
  | error e => exact ⟨s.db, rfl, .inl rfl⟩

/-- A file renamed into secrets/, or not. -/
theorem State.writeSecret_cases (s : State) (file ct : String) :
    s.writeSecret file ct = (.error .failed, s) ∨
      s.writeSecret file ct = (.ok (), { s with disk.secrets := s.disk.secrets.put file (.file ct) }) := by
  unfold State.writeSecret
  split
  · exact .inl rfl
  · exact .inr rfl

/-- Rows are changed by statements only. -/
theorem exec_rows {β : Type} (op : Op β) (s : State) : (s.exec op).2.db = s.db ∨
    ∃ (α : Type) (w : Write α) (a : α), w.kind = op.kind ∧
      w.run (s.host.clock s.ticks) s.db = .ok (a, (s.exec op).2.db) := by
  cases op with
  | write w =>
    obtain ⟨db, hs, hdb⟩ := s.write_cases w
    have hexec : (s.exec (.write w)).2.db = db := by
      rw [show (s.exec (.write w)).2 = _ from hs]
    rw [hexec]
    exact hdb.imp_right fun ⟨a, hrun⟩ => ⟨_, w, a, rfl, hrun⟩
  | writeSecret file ct =>
    refine .inl ?_
    show (s.writeSecret file ct).2.db = s.db
    rcases s.writeSecret_cases file ct with h | h <;> rw [h]
  | _ => exact .inl rfl

theorem exec_frame {β : Type} {op : Op β} {ks : List Kind} (hk : op.kind ∈ ks) (s : State) :
    Frame ks s (s.exec op).2 := by
  cases op with
  | query | checkSyntax | readSecretsDir => exact .refl s
  | encrypt => exact { Frame.refl s with }
  | write w =>
    obtain ⟨db, hs, hdb⟩ := s.write_cases w
    show Frame ks s (s.write w).2
    rw [hs]
    rcases hdb with rfl | ⟨a, hrun⟩
    · exact { Frame.refl s with }
    · have hf := Write.run_frame hrun
      -- a table outside the kinds is not the one written
      have hne : ∀ {k : Kind}, k ∉ ks → w.kind ≠ k := fun hn heq => hn (heq ▸ hk)
      exact {
        Frame.refl s with
        revisions := fun h => hf.revisions (hne h)
        workloadRows := fun h h' => hf.workloads (hne h) (hne h')
        inputRows := fun h => hf.inputs (hne h)
        secretRows := fun h => hf.secrets (hne h) }
  | writeIndex d => exact { Frame.refl s with index := fun h => absurd hk h }
  | writeFlake d => exact { Frame.refl s with flake := fun h => absurd hk h }
  | writeWorkload name content => exact { Frame.refl s with workloads := fun h => absurd hk h }
  | writeSecret file ct =>
    show Frame ks s (s.writeSecret file ct).2
    rcases s.writeSecret_cases file ct with hw | hw
    · rw [hw]
      exact .refl s
    · rw [hw]
      exact { Frame.refl s with secrets := fun h => absurd hk h }
  | removeSecretFile file => exact { Frame.refl s with secrets := fun _ h => absurd hk h }
  | casBusy | storeBusy | spawn => exact { Frame.refl s with slot := fun h => absurd hk h }

/-- A program of calls of the kinds `ks` keeps what no such call writes. -/
theorem Within.frame {α : Type} {ks : List Kind} {p : Prog Op α} (h : Within ks p) (s : State) :
    p.Ends (fun _ s' => Frame ks s s') s :=
  Uses.ends (fun _ _ t hk ht => ht.trans (exec_frame hk t)) h (.refl s)

theorem State.handle_frame (s : State) (r : Request) (faults : List Bool) : Frame r.kinds s (s.handle r faults) :=
  ((serve_within r).frame s).runWith faults

/-- What every request's handler establishes, whichever calls fail, holds after the request. -/
theorem State.handle_ends {s : State} {r : Request} {Q : Response → State → Prop} (h : (serve r).Ends Q s)
    (faults : List Bool) : Q (s.answer r faults) (s.handle r faults) :=
  h.runWith faults

/-! ## Invariants of every run -/

theorem exec_wf {β : Type} {op : Op β} {s : State} (h : s.db.WF) : (s.exec op).2.db.WF := by
  rcases exec_rows op s with hdb | ⟨α, w, a, -, hrun⟩
  · rw [hdb]
    exact h
  · exact Write.run_wf h hrun

theorem State.handle_wf {s : State} (h : s.db.WF) (r : Request) (faults : List Bool) :
    (s.handle r faults).db.WF :=
  (ends_of_calls (I := fun s : State => s.db.WF) (fun _ _ _ hs => exec_wf hs) (serve r) h).runWith faults

theorem State.restart_frame (s : State) :
    s.restart.disk = s.disk.init ∧ s.restart.job = none ∧ s.restart.busy = false ∧ s.restart.host = s.host ∧
      ∃ jobs, s.restart.db = { s.db with jobs := jobs } := by
  unfold State.restart
  dsimp only
  generalize s.db.runningJobs = l
  have hfold : ∀ (l : List Job) (t : State), (l.foldl State.recover t).disk = t.disk ∧
      (l.foldl State.recover t).job = t.job ∧ (l.foldl State.recover t).busy = t.busy ∧
      (l.foldl State.recover t).host = t.host ∧
        ∃ jobs, (l.foldl State.recover t).db = { t.db with jobs := jobs } := by
    intro l
    induction l with
    | nil => intro t; exact ⟨rfl, rfl, rfl, rfl, t.db.jobs, rfl⟩
    | cons a l ih =>
      intro t
      obtain ⟨h1, h2, h3, h4, jobs, h5⟩ := ih (t.recover a)
      exact ⟨h1, h2, h3, h4, jobs, h5⟩
  exact hfold l _

theorem State.step_wf {s s' : State} {e : Event} (h : s.db.WF) (hs : s.step e = some s') : s'.db.WF := by
  cases e with
  | request r faults => cases hs; exact State.handle_wf h r faults
  | job i =>
    obtain ⟨j, t, j', -, hst, rfl⟩ := Jobs.step_some hs
    exact hst.wf h
  | restart =>
    cases hs
    obtain ⟨-, -, -, -, jobs, hdb⟩ := s.restart_frame
    rw [hdb]
    exact { h with }

theorem Store.Db.wf_empty : Db.empty.WF :=
  ⟨Table.uniqueBy_empty, Table.uniqueBy_empty, Table.uniqueBy_empty, fun _ h => absurd h Table.not_mem_empty,
    fun _ h => absurd h Table.not_mem_empty⟩

/-- The database of a run from a fresh state directory is well-formed. -/
theorem State.run_wf {h : Host} {es : List Event} {s : State} (hs : (fresh h).run es = some s) : s.db.WF :=
  Runs.exec_inv_all (I := fun s : State => s.db.WF) (fun _ _ _ => State.step_wf) Db.wf_empty hs

theorem State.Reachable.wf {s : State} (h : s.Reachable) : s.db.WF := by
  obtain ⟨host, es, hs⟩ := h
  exact State.run_wf hs

/-! ## The job slot -/

theorem inFlight_of_job {s s' : State} (h : s'.job = s.job) : s'.inFlight = s.inFlight := by
  unfold State.inFlight
  rw [h]

/-- A request leaves the slot as it is, or has claimed it for the job it started. -/
inductive SlotAfter (s s' : State) : Prop
  | kept (hjob : s'.job = s.job) (hbusy : s'.busy = s.busy)
  | claimed {fn : JobFn} {row : ID} (hfree : s.busy = false) (hbusy : s'.busy = true)
    (hjob : s'.job = some { row := row, fn := fn, phase := .logFile })

theorem NotLaunched.slotAfter {s t s' : State} (h : NotLaunched t s') (hjob : t.job = s.job)
    (hbusy : t.busy = s.busy) : SlotAfter s s' :=
  .kept (h.job.trans hjob) (by rw [h.busy, ← hbusy, h.free])

theorem State.handle_slot (s : State) (r : Request) (faults : List Bool) : SlotAfter s (s.handle r faults) := by
  rcases r.plain_or with hplain | ⟨mode, hmode⟩ | ⟨name, confirm, deleteData, rfl⟩
  · have hk : Kind.slot ∉ r.kinds := by simpa [Request.plain] using hplain
    obtain ⟨hbusy, hjob⟩ := (s.handle_frame r faults).slot hk
    exact .kept hjob hbusy
  · have hend := State.handle_ends (apply_ends hmode s) faults
    generalize s.answer r faults = a at hend
    generalize s.handle r faults = s' at hend ⊢
    cases hend with
    | rejected => exact .kept rfl rfl
    | launched hl => exact .claimed hl.free hl.busy hl.job
    | refused => exact .kept rfl rfl
    | failed ht hs' =>
      rcases hs' with rfl | hn
      · exact .kept ht.job ht.busy
      · exact hn.slotAfter ht.job ht.busy
  · have hend := State.handle_ends (destroy_ends name confirm deleteData s) faults
    generalize s.answer _ faults = a at hend
    generalize s.handle _ faults = s' at hend ⊢
    cases hend with
    | rejected => exact .kept rfl rfl
    | disabled => exact .kept rfl rfl
    | refused => exact .kept rfl rfl
    | failed _ _ hn => exact hn.slotAfter rfl rfl
    | launched _ _ _ hl => exact .claimed hl.free hl.busy hl.job

/-- The slot is taken as long as a job is in flight. -/
def State.SlotHeld (s : State) : Prop := s.inFlight = true → s.busy = true

theorem State.step_slotHeld {s s' : State} {e : Event} (h : s.SlotHeld) (hs : s.step e = some s') : s'.SlotHeld := by
  cases e with
  | request r faults =>
    cases hs
    intro hfl
    cases s.handle_slot r faults with
    | kept hjob hbusy => rw [hbusy]; exact h (by rwa [← inFlight_of_job hjob])
    | claimed _ hbusy => exact hbusy
  | restart =>
    cases hs
    intro hfl
    rw [State.inFlight, s.restart_frame.2.1] at hfl
    cases hfl
  | job i =>
    obtain ⟨j, t, j', hj, hst, rfl⟩ := Jobs.step_some hs
    have hbusy := h (hst.inFlight hj)
    intro hfl
    -- only the last step frees the slot, and it ends the job
    cases hst with
    | released => cases hfl
    | _ => exact hbusy

end Nixbox
