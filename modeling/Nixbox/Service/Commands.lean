/-
The commands of the jobs, one job after the other: however the calls of the requests come between each other and the
steps of the job in flight, the slot is claimed by one at a time, so the commands of two jobs are never mixed.
-/
import Nixbox.Jobs.Commands
import Nixbox.Service.Frames
import Nixbox.Service.Threads

namespace Nixbox

open Effect Prog Store Server

/-! ## The slot -/

/-- Who has claimed the slot frees it, or hands it over to the job that is spawned. -/
def slotting : Discipline Op Bool where
  allows holds op := match op with
    | .casBusy => holds = false
    | .storeBusy busy => busy = false ∧ holds = true
    | .spawn job => (job.phase = .logFile ∧ job.rebuilt = none) ∧ holds = true
    | _ => True
  next holds op b := match op, b with
    | .casBusy, claimed => claimed
    | .storeBusy _, _ | .spawn _, _ => false
    | _, _ => holds

section Requests

variable {α β ε : Type} {ks : List Kind} {holds : Bool}

/-- Calls of the other kinds have nothing to do with the slot. -/
theorem slotting_other {op : Op β} (h : op.kind ≠ .slot) :
    slotting.allows holds op ∧ ∀ b, slotting.next holds op b = holds := by
  cases op with
  | casBusy | storeBusy | spawn => exact absurd rfl h
  | query | write | checkSyntax | readSecretsDir | writeIndex | writeFlake | writeWorkload | encrypt | writeSecret
  | removeSecretFile => exact ⟨trivial, fun _ => rfl⟩

theorem Within.slotting {p : Prog Op α} (h : Within ks p) (hks : .slot ∉ ks) :
    p.Keeps Nixbox.slotting (fun _ holds' => holds' = holds) holds :=
  Uses.keeps h fun _ _ hop => slotting_other fun heq => hks (heq ▸ hop)

/-- What comes after calls of other kinds. -/
theorem Within.seq_slotting {x : ExceptT ε (Prog Op) α} {f : α → ExceptT ε (Prog Op) β} (hx : Within ks x.run)
    (hks : .slot ∉ ks) (hf : ∀ a, Keeps Nixbox.slotting (fun _ holds => holds = false) false (f a).run) :
    Keeps Nixbox.slotting (fun _ holds => holds = false) false (x >>= f).run := by
  refine Keeps.seqE (P := fun _ holds => holds = false) ((hx.slotting hks).mono fun r holds hholds => ?_)
    fun a holds hholds => hholds ▸ hf a
  cases r with
  | ok a => exact hholds
  | error e => exact hholds

theorem answerJob_slotting {page : String} {x : ExceptT Jobs.StartError (Prog Op) Job}
    (hx : Keeps slotting (fun _ holds => holds = false) false x.run) :
    Keeps slotting (fun _ holds => holds = false) false (answerJob page x).run := by
  refine Keeps.seqE (P := fun _ holds => holds = false) (keeps_lift.2 hx) fun r holds hholds => ?_
  subst hholds
  split
  · exact keeps_throw.2 rfl
  · exact keeps_throw.2 rfl
  · exact keeps_return.2 rfl

theorem giveBack_slotting (e : Err) : Keeps slotting (fun _ holds => holds = false) true (Jobs.giveBack e).run := by
  refine Keeps.seqE (P := fun _ holds => holds = false) ?_ fun _ holds hholds => keeps_throw.2 hholds
  exact keeps_lift.2 (keeps_perform ⟨rfl, rfl⟩ fun _ _ => rfl)

theorem launch_slotting (kind : JobKind) (wid : Option ID) (fn : JobFn) :
    Keeps slotting (fun _ holds => holds = false) true (Jobs.launch kind wid fn).run := by
  have hcreate : Within [.jobRow, .read] (createJob kind wid "").run :=
    within_bind (within_write (by simp)) fun _ => within_query (by decide)
  refine Keeps.seqE (P := fun _ holds => holds = true) (keeps_lift.2 (hcreate.slotting (by decide)))
    fun r holds hholds => ?_
  subst hholds
  split
  · exact giveBack_slotting _
  · rename_i job
    have hpath : Within [.jobRow] (setJobLogPath job.id (Jobs.jobLog job.id)).run := within_write (by simp)
    refine Keeps.seqE (P := fun _ holds => holds = true) (keeps_lift.2 (hpath.slotting (by decide)))
      fun r holds hholds => ?_
    subst hholds
    split
    · exact giveBack_slotting _
    · refine Keeps.seqE (P := fun _ holds => holds = false) ?_ fun _ holds hholds => keeps_return.2 hholds
      exact keeps_lift.2 (keeps_perform ⟨⟨rfl, rfl⟩, rfl⟩ fun _ _ => rfl)

theorem start_slotting (kind : JobKind) (wid : Option ID) (fn : JobFn) :
    Keeps slotting (fun _ holds => holds = false) false (Jobs.start kind wid fn).run := by
  refine Keeps.seqE (P := fun claimed holds => holds = claimed) ?_ fun claimed holds hholds => ?_
  · exact keeps_lift.2 (keeps_perform rfl fun _ _ => rfl)
  · subst hholds
    cases holds with
    | true => exact launch_slotting kind wid fn
    | false => exact keeps_throw.2 rfl

theorem startApply_slotting (wid : Option ID) (mode : RebuildMode) :
    Keeps slotting (fun _ holds => holds = false) false (startApply wid mode).run := by
  have hprepare : Within [.read, .index, .flake, .prune] (orStore prepareApply).run :=
    within_adapt (prepareApply_within (by decide) (by decide) (by decide) (by decide))
  exact hprepare.seq_slotting (by decide) fun _ => start_slotting _ _ _

theorem handler_slotting (r : Request) : Keeps slotting (fun _ holds => holds = false) false (handler r).run := by
  have hlookup : ∀ name, Within [.read] (lookupWorkload name).run :=
    fun name => lookupWorkload_within (by decide) name
  cases r with
  | workloadApply name mode =>
    exact (hlookup name).seq_slotting (by decide) fun wl => answerJob_slotting (startApply_slotting _ _)
  | flakeApply mode | secretApply mode => exact answerJob_slotting (startApply_slotting _ _)
  | rebuild => exact answerJob_slotting (startApply_slotting _ _)
  | workloadDestroy name confirm deleteData =>
    refine (hlookup name).seq_slotting (by decide) fun wl => ?_
    split
    · have hdisable : Within [.workloadRow] (orError (setWorkloadEnabled wl.id false)).run :=
        orError_within (within_write (by simp))
      have hindex : Within [.read, .index] (orError regenerateIndex).run :=
        orError_within (regenerateIndex_within (by decide) (by decide))
      refine hdisable.seq_slotting (by decide) fun _ => hindex.seq_slotting (by decide) fun _ => ?_
      exact answerJob_slotting (start_slotting _ _ _)
    · exact keeps_throw.2 rfl
  | _ => exact (handler_within _).slotting (by simp)

/-- Whatever its calls are answered, a request that is done holds the slot no more. -/
theorem serve_slotting (r : Request) : (serve r).Keeps slotting (fun _ holds => holds = false) false := by
  refine keeps_bind.2 ((handler_slotting r).mono fun x holds hholds => ?_)
  cases x with
  | ok a => exact keeps_ret.2 hholds
  | error a => exact keeps_ret.2 hholds

end Requests

/-! ## What a call does to the slot -/

/-- The job a call hands the slot over to. -/
def Op.spawned {β : Type} : Op β → Option Running
  | .spawn job => some job
  | _ => none

/-- What a call does to the slot: whether its thread has claimed it before and afterwards, and the job it spawns. -/
inductive Slotted (s s' : State) : Bool → Bool → Option Running → Prop
  | other {holds : Bool} (hbusy : s'.busy = s.busy) (hjob : s'.job = s.job) : Slotted s s' holds holds none
  | claimed (hfree : s.busy = false) (hbusy : s'.busy = true) (hjob : s'.job = s.job) : Slotted s s' false true none
  | freed (hbusy : s'.busy = false) (hjob : s'.job = s.job) : Slotted s s' true false none
  | spawned {j : Running} (hnew : j.phase = .logFile ∧ j.rebuilt = none) (hbusy : s'.busy = s.busy)
    (hjob : s'.job = some j) : Slotted s s' true false (some j)

theorem call_slotted {α : Type} {fails holds : Bool} {q q' : Prog Op α} {s s' : State} {c : Exchange Op}
    (hadv : Advanced fails q s c q' s') (hallow : slotting.allows holds c.op) :
    Slotted s s' holds (slotting.next holds c.op c.answer) c.op.spawned := by
  obtain ⟨op, answer⟩ := c
  by_cases hk : op.kind = .slot
  · -- a call about the slot cannot fail
    have hexec : s.exec op = (answer, s') := by
      rcases hadv.effect with h | ⟨hfault, -⟩
      · exact h
      · cases op with
        | casBusy | storeBusy | spawn => cases hfault
        | write w => cases w <;> cases hk
        | _ => cases hk
    cases op with
    | casBusy =>
      cases hexec
      cases (show holds = false from hallow)
      show Slotted s { s with busy := true } false (!s.busy) none
      cases hbusy : s.busy with
      | false => exact .claimed hbusy rfl rfl
      | true => exact .other hbusy.symm rfl
    | storeBusy busy =>
      obtain ⟨rfl, rfl⟩ := hallow
      cases hexec
      exact .freed rfl rfl
    | spawn job =>
      obtain ⟨hnew, rfl⟩ := hallow
      cases hexec
      exact .spawned hnew rfl rfl
    | write w => cases w <;> cases hk
    | _ => cases hk
  · have hframe : s'.busy = s.busy ∧ s'.job = s.job := by
      rcases hadv.effect with h | ⟨-, rfl⟩
      · rw [← show (s.exec op).2 = s' from congrArg Prod.snd h]
        have hf : Frame [op.kind] s (s.exec op).2 := exec_frame (List.mem_singleton_self _) s
        exact hf.slot fun h => hk (List.mem_singleton.1 h).symm
      · exact ⟨rfl, rfl⟩
    have hnone : op.spawned = none := by
      cases op with
      | spawn => exact absurd rfl hk
      | _ => rfl
    show Slotted s s' holds (slotting.next holds op answer) op.spawned
    rw [(slotting_other hk).2, hnone]
    exact .other hframe.1 hframe.2

namespace Service

/-! ## One holder at a time -/

/-- Thread `k` has claimed the slot and still has to free it or to hand it over. -/
def holds (p : Pool) (k : Nat) : Bool := slotting.after false (trace k p.log)

/-- The slot is with one thread at most, or with the job in flight. -/
structure Exclusive (p : Pool) : Prop where
  kept : Pool.Keeping (fun _ => slotting) (fun _ _ holds => holds = false) (fun _ => false) p
  one : ∀ k k', holds p k = true → holds p k' = true → k = k'
  held : ∀ k, holds p k = true → p.state.busy = true ∧ p.state.inFlight = false
  flight : p.state.inFlight = true → p.state.busy = true

variable {p p' : Pool} {k : Nat} {t : Thread} {c : Exchange Op}

theorem exclusive_fresh (h : Host) : Exclusive (fresh h) :=
  ⟨Pool.keeping_fresh _, nofun, nofun, nofun⟩

/-- A call moves the slot of its own thread only. -/
theorem holds_call (hlog : p'.log = p.log ++ [⟨c, k, t.tag, p.state⟩]) (k' : Nat) :
    holds p' k' = if k' = k then slotting.next (holds p k) c.op c.answer else holds p k' := by
  unfold holds
  rw [hlog]
  split
  · rename_i heq
    subst heq
    rw [show trace k' (p.log ++ [⟨c, k', t.tag, p.state⟩]) = trace k' p.log ++ [c] from
      trace_snoc_self (e := ⟨c, k', t.tag, p.state⟩), Discipline.after, List.foldl_append]
    rfl
  · rename_i hne
    rw [trace_snoc_other (e := ⟨c, k, t.tag, p.state⟩) fun heq => hne heq.symm]

/-- A call in a pool: what it does to the slot, and who holds it afterwards. -/
theorem Exclusive.call {fails : Bool} (h : Exclusive p) (hs : step p (.call k fails) = some p') :
    ∃ e, p'.log = p.log ++ [e] ∧ Slotted p.state p'.state (holds p k) (holds p' k) e.op.spawned ∧
      ∀ k', k' ≠ k → holds p' k' = holds p k' := by
  obtain ⟨t, c, prog, ht, hadv, -, hlog⟩ := Pool.step_call hs
  have hallow := (hadv.keeps (h.kept.kept k t ht)).1
  refine ⟨_, hlog, ?_, fun k' hne => ?_⟩
  · rw [holds_call hlog, if_pos rfl]
    exact call_slotted hadv hallow
  · rw [holds_call hlog, if_neg hne]

/-- The holder lets go, and no one holds the slot. -/
theorem Exclusive.none_left (h : Exclusive p) (hb : holds p k = true) (hb' : holds p' k = false)
    (hothers : ∀ k', k' ≠ k → holds p' k' = holds p k') (k' : Nat) : holds p' k' ≠ true := by
  intro hk'
  by_cases hk : k' = k
  · rw [hk, hb'] at hk'
    cases hk'
  · rw [hothers k' hk] at hk'
    exact hk (h.one k' k hk' hb)

theorem Exclusive.step {m : Move} (h : Exclusive p) (hs : Service.step p m = some p') : Exclusive p' := by
  have hkept := h.kept.step serve_slotting hs
  cases m with
  | start r =>
    cases hs
    exact ⟨hkept, h.one, h.held, h.flight⟩
  | env i =>
    obtain ⟨s, hstep, rfl⟩ := Pool.step_env hs
    obtain ⟨j, s, j', hj, hst, rfl⟩ := Jobs.step_some hstep
    have hflight := hst.inFlight hj
    refine ⟨hkept, h.one, fun k hk => ?_, fun hfl => ?_⟩
    · rw [(h.held k hk).2] at hflight
      cases hflight
    · -- only the last step frees the slot, and it ends the job
      have hbusy := h.flight hflight
      cases hst with
      | released => cases hfl
      | _ => exact hbusy
  | call k fails =>
    obtain ⟨e, -, hslot, hothers⟩ := h.call hs
    generalize hb : holds p k = before at hslot
    generalize hb' : holds p' k = after at hslot
    generalize e.op.spawned = job at hslot
    cases hslot with
    | other hbusy hjob =>
      have hsame : ∀ k', holds p' k' = holds p k' := by
        intro k'
        by_cases hk : k' = k
        · rw [hk, hb, hb']
        · exact hothers k' hk
      have hfl := inFlight_of_job hjob
      refine ⟨hkept, fun k₁ k₂ => ?_, fun k' => ?_, ?_⟩
      · rw [hsame, hsame]
        exact h.one k₁ k₂
      · rw [hsame, hbusy, hfl]
        exact h.held k'
      · rw [hbusy, hfl]
        exact h.flight
    | claimed hfree hbusy hjob =>
      -- the slot was free, so nobody else holds it
      have honly : ∀ k', holds p' k' = true → k' = k := by
        intro k' hk'
        by_contra hne
        rw [hothers k' hne] at hk'
        rw [(h.held k' hk').1] at hfree
        cases hfree
      have hidle : p'.state.inFlight = false := by
        rw [inFlight_of_job hjob]
        cases hfl : p.state.inFlight with
        | false => rfl
        | true =>
          rw [h.flight hfl] at hfree
          cases hfree
      exact ⟨hkept, fun k₁ k₂ h₁ h₂ => (honly k₁ h₁).trans (honly k₂ h₂).symm,
        fun _ _ => ⟨hbusy, hidle⟩, fun _ => hbusy⟩
    | freed hbusy hjob =>
      have hnone := h.none_left hb hb' hothers
      have hidle : p'.state.inFlight = false := by rw [inFlight_of_job hjob, (h.held k hb).2]
      refine ⟨hkept, fun k₁ k₂ h₁ => absurd h₁ (hnone k₁), fun k' hk' => absurd hk' (hnone k'),
        fun hfl => ?_⟩
      rw [hidle] at hfl
      cases hfl
    | spawned _ hbusy hjob =>
      have hnone := h.none_left hb hb' hothers
      refine ⟨hkept, fun k₁ k₂ h₁ => absurd h₁ (hnone k₁),
        fun k' hk' => absurd hk' (hnone k'), fun _ => ?_⟩
      rw [hbusy, (h.held k hb).1]

/-! ## One script at a time -/

variable {pl : Pipeline}

/-- The jobs that were spawned, in order. -/
def spawned (log : List (Effect.Event Op State Request)) : List Running := log.filterMap fun e => e.op.spawned

/-- The commands of a move, with their answers. -/
def issuedBy (pl : Pipeline) (p : Pool) : Move → List Jobs.Issued
  | .start _ | .call .. => []
  | .env i => p.state.job.toList.flatMap fun j => (j.command pl).map (⟨·, i.cmd⟩)

/-- The commands of a run, with their answers. -/
def issued (pl : Pipeline) : Pool → List Move → List Jobs.Issued
  | _, [] => []
  | p, m :: ms => issuedBy pl p m ++ ((step p m).map (issued pl · ms)).getD []

/-- What has been run is a part of the script of each job, one job after the other. -/
def Serial (pl : Pipeline) (jobs : List Running) (done : List Jobs.Issued) : Prop :=
  ∃ parts : List (List Jobs.Issued), done = parts.flatten ∧
    List.Forall₂ (fun j part => Jobs.Part pl j.fn part) jobs parts

/-- The job in the slot is the last that was spawned, and it has come so far. -/
structure Latest (pl : Pipeline) (jobs : List Running) (done : List Jobs.Issued) (j : Running) : Prop where
  split : ∃ before j₀ earlier part, jobs = before ++ [j₀] ∧ done = earlier ++ part ∧ j₀.fn = j.fn ∧
    Serial pl before earlier ∧ Jobs.At pl j part ∧ Jobs.Rebuilds pl j part

/-- The commands issued so far are those of the jobs so far, one after the other. -/
structure Working (pl : Pipeline) (p : Pool) (done : List Jobs.Issued) : Prop extends Exclusive p where
  serial : Serial pl (spawned p.log) done
  latest : ∀ j, p.state.job = some j → Latest pl (spawned p.log) done j

variable {jobs : List Running} {done : List Jobs.Issued}

theorem Serial.snoc {part : List Jobs.Issued} {j : Running} (h : Serial pl jobs done) (hpart : Jobs.Part pl j.fn part) :
    Serial pl (jobs ++ [j]) (done ++ part) := by
  obtain ⟨parts, rfl, hparts⟩ := h
  refine ⟨parts ++ [part], by simp, ?_⟩
  exact List.rel_append hparts (.cons hpart .nil)

theorem Latest.serial {j : Running} (h : Latest pl jobs done j) : Serial pl jobs done := by
  obtain ⟨before, j₀, earlier, part, rfl, rfl, hfn, hbefore, hat, -⟩ := h.split
  exact hbefore.snoc (hfn ▸ hat.toPart)

theorem spawned_snoc (log : List (Effect.Event Op State Request)) (e : Effect.Event Op State Request) :
    spawned (log ++ [e]) = spawned log ++ e.op.spawned.toList := by
  rw [spawned, List.filterMap_append]
  cases hop : e.op.spawned <;> simp [spawned, hop]

theorem Latest.step {i : Jobs.Input} {s s' : State} {j j' : Running} (h : Latest pl jobs done j)
    (hrun : Jobs.run i j s = some (s', j')) : Latest pl jobs (done ++ (j.command pl).map (⟨·, i.cmd⟩)) j' := by
  obtain ⟨before, j₀, earlier, part, hjobs, rfl, hfn, hbefore, hat, hrebuilds⟩ := h.split
  have hfn' := (Jobs.run_stepped hrun).frame.1
  exact ⟨before, j₀, earlier, _, hjobs, List.append_assoc .., hfn.trans hfn'.symm, hbefore, Jobs.at_step hrun hat,
    Jobs.rebuilds_step hrun hat hrebuilds⟩

/-- A step of the job in the slot. -/
theorem job_step {i : Jobs.Input} {s s' : State} (h : Jobs.step i s = some s') :
    ∃ j t j', s.job = some j ∧ Jobs.run i j s = some (t, j') ∧ s' = { t with job := some j' } := by
  obtain ⟨j, hj, h⟩ := Option.bind_eq_some_iff.1 h
  obtain ⟨⟨t, j'⟩, hrun, h⟩ := Option.bind_eq_some_iff.1 h
  cases h
  exact ⟨j, t, j', hj, hrun, rfl⟩

theorem working_fresh (h : Host) : Working pl (fresh h) [] := by
  have hjob : (fresh h).state.job = none := rfl
  refine ⟨exclusive_fresh h, ⟨[], rfl, .nil⟩, fun j hj => ?_⟩
  rw [hjob] at hj
  cases hj

theorem Working.step {m : Move} (h : Working pl p done) (hs : Service.step p m = some p') :
    Working pl p' (done ++ issuedBy pl p m) := by
  have hexclusive := h.toExclusive.step hs
  cases m with
  | start r =>
    cases hs
    rw [issuedBy, List.append_nil]
    exact ⟨hexclusive, h.serial, h.latest⟩
  | env i =>
    obtain ⟨s, hstep, rfl⟩ := Pool.step_env hs
    obtain ⟨j, s', j', hj, hrun, rfl⟩ := job_step hstep
    have hissued : issuedBy pl p (.env i) = (j.command pl).map (⟨·, i.cmd⟩) := by simp [issuedBy, hj]
    have hlatest := (h.latest j hj).step hrun
    rw [hissued]
    refine ⟨hexclusive, hlatest.serial, fun j'' hj'' => ?_⟩
    cases hj''
    exact hlatest
  | call k fails =>
    obtain ⟨e, hlog, hslot, -⟩ := h.call hs
    have hspawned : spawned p'.log = spawned p.log ++ e.op.spawned.toList := by rw [hlog, spawned_snoc]
    rw [issuedBy, List.append_nil]
    generalize e.op.spawned = job at hslot hspawned
    generalize holds p k = before at hslot
    generalize holds p' k = after at hslot
    cases hslot with
    | other _ hjob | claimed _ _ hjob | freed _ hjob =>
      rw [Option.toList_none, List.append_nil] at hspawned
      refine ⟨hexclusive, hspawned ▸ h.serial, fun j hj => ?_⟩
      rw [hspawned]
      exact h.latest j (hjob ▸ hj)
    | @spawned j hnew _ hjob =>
      have hlatest : Latest pl (Service.spawned p'.log) done j :=
        ⟨_, j, done, [], hspawned, (List.append_nil _).symm, rfl, h.serial, Jobs.at_spawned hnew.1,
          Jobs.rebuilds_spawned hnew.1 hnew.2⟩
      refine ⟨hexclusive, hlatest.serial, fun j' hj' => ?_⟩
      rw [hjob] at hj'
      cases hj'
      exact hlatest

theorem Working.run {ms : List Move} (h : Working pl p done) (hrun : Service.run p ms = some p') :
    Working pl p' (done ++ issued pl p ms) := by
  induction ms generalizing p done with
  | nil =>
    cases hrun
    rw [issued, List.append_nil]
    exact h
  | cons m ms ih =>
    obtain ⟨q, hstep, hrest⟩ := Runs.exec_cons_some.1 hrun
    rw [issued, show Service.step p m = some q from hstep, Option.map_some, Option.getD_some, ← List.append_assoc]
    exact ih (h.step hstep) hrest

/-- On a dry run `nixos-rebuild` only builds. -/
theorem script_dryRun {fn : JobFn} {c : Command} (hdry : pl.dryRun = true) (hc : c ∈ fn.script pl)
    (hrebuild : c.head? = some "nixos-rebuild") : c = pl.switch .build := by
  have hother : ∀ {name : String} {args : List String}, name ≠ "nixos-rebuild" →
      (name :: args).head? ≠ some "nixos-rebuild" := fun hne heq => hne (Option.some.inj heq)
  rcases List.mem_append.1 hc with hstop | hc
  · cases fn with
    | apply => cases hstop
    | destroy =>
      cases List.mem_singleton.1 hstop
      exact absurd hrebuild (hother (by decide))
  rcases List.mem_append.1 hc with hcommand | hdelete
  · simp only [Pipeline.commands, List.mem_cons, List.not_mem_nil, or_false] at hcommand
    rcases hcommand with rfl | rfl | rfl
    · exact absurd hrebuild (hother (by decide))
    · exact absurd hrebuild (hother (by decide))
    · unfold Pipeline.switch Pipeline.effective
      rw [hdry]
      cases fn.mode <;> rfl
  · rcases Jobs.deletes_cases fn with hnone | ⟨dataDir, hsome⟩
    · rw [hnone] at hdelete
      cases hdelete
    · rw [hsome, List.mem_singleton] at hdelete
      subst hdelete
      exact absurd hrebuild (hother (by decide))

/-- What has been run is in the script of a job. -/
theorem Serial.mem {e : Jobs.Issued} (h : Serial pl jobs done) (he : e ∈ done) :
    ∃ j ∈ jobs, e.command ∈ j.fn.script pl := by
  obtain ⟨parts, rfl, hparts⟩ := h
  obtain ⟨part, hpart, hmem⟩ := List.mem_flatten.1 he
  obtain ⟨j, hj, horder⟩ : ∃ j ∈ jobs, Jobs.Part pl j.fn part := by
    clear he
    induction hparts with
    | nil => cases hpart
    | cons hj _ ih =>
      rcases List.mem_cons.1 hpart with rfl | hpart
      · exact ⟨_, List.mem_cons_self, hj⟩
      · obtain ⟨j, hj, hrest⟩ := ih hpart
        exact ⟨j, List.mem_cons_of_mem _ hj, hrest⟩
  exact ⟨j, hj, horder.order.subset (List.mem_map_of_mem hmem)⟩

/-- Whatever requests there are and however their calls come between each other and the steps of the jobs: the commands
that were run are, job by job in the order of spawning, a first part of the job's script, in which each command but the
last succeeded or was the stopping of a unit. On a dry run the system is built and never switched. -/
theorem commands_serialized (h : Host) (pl : Pipeline) {ms : List Move} {p : Pool} (hrun : run (fresh h) ms = some p) :
    (∃ parts : List (List Jobs.Issued), issued pl (fresh h) ms = parts.flatten ∧
      List.Forall₂ (fun j part => Jobs.Part pl j.fn part) (spawned p.log) parts) ∧
    (pl.dryRun = true → ∀ e ∈ issued pl (fresh h) ms, e.command.head? = some "nixos-rebuild" →
      e.command = pl.switch .build) := by
  have hserial : Serial pl (spawned p.log) (issued pl (fresh h) ms) := ((working_fresh h).run hrun).serial
  refine ⟨hserial, fun hdry e he hrebuild => ?_⟩
  obtain ⟨j, -, hscript⟩ := hserial.mem he
  exact script_dryRun hdry hscript hrebuild

/-- Two rebuilds are asked for side by side, and one of them is refused. A third comes when the job is over, and
ends at its first command. -/
def rebuiltTwice : List Move :=
  [.start .rebuild, .start .rebuild] ++ ((List.range 11).flatMap fun _ => [.call 0 false, .call 1 false]) ++
    calls 0 4 ++ List.replicate 7 (.env .ok) ++ .start .rebuild :: calls 2 15 ++
      [.env .ok, .env { Jobs.Input.ok with cmd := .ok 1 }]

/-- A pipeline that runs nothing. -/
def dryBox : Pipeline := ⟨"/etc/nixos", "box", "/var/lib/nixbox/state", "nixbox-state", true⟩

/-- Two rebuilds have been asked for. -/
def lockedTwice : Pool := (run (fresh exampleHost) rebuiltTwice).get (by decide +kernel)

theorem commands_serialized_twice :
    (∃ parts : List (List Jobs.Issued), issued dryBox (fresh exampleHost) rebuiltTwice = parts.flatten ∧
      List.Forall₂ (fun j part => Jobs.Part dryBox j.fn part) (spawned lockedTwice.log) parts) ∧
    (spawned lockedTwice.log).length = 2 ∧ ∀ e ∈ issued dryBox (fresh exampleHost) rebuiltTwice,
      e.command.head? = some "nixos-rebuild" →
      e.command = ["nixos-rebuild", "build", "--flake", "/etc/nixos#box"] := by
  have hrun : run (fresh exampleHost) rebuiltTwice = some lockedTwice := (Option.some_get _).symm
  obtain ⟨hserial, hdry⟩ := commands_serialized exampleHost dryBox hrun
  exact ⟨hserial, by decide +kernel, hdry rfl⟩

/-- Whatever came in between: the last of the commands that were run are those of the job in the slot. After its stop
they are a run of the pipeline's program, with the answers the job got, up to the stage the job is at; and once the job
function goes by a result of the rebuild, that is what the program returned, and only the data may be deleted since. -/
theorem rebuild_refines (h : Host) (pl : Pipeline) {ms : List Move} {p : Pool} (hrun : run (fresh h) ms = some p)
    {j : Running} (hj : p.state.job = some j) :
    ∃ earlier part, issued pl (fresh h) ms = earlier ++ part ∧
      (∀ q, Jobs.rest pl j = some q → ∃ before l, part = before ++ l ∧ before.map (·.command) = j.fn.stops ∧
        Jobs.Comes (pl.Rebuild j.fn.mode) l (.inl q)) ∧
      (∀ r, j.rebuilt = some r → ∃ before l after, part = before ++ l ++ after ∧
        before.map (·.command) = j.fn.stops ∧ Jobs.Comes (pl.Rebuild j.fn.mode) l (.inr r) ∧
          after.map (·.command) <+: j.fn.deletes) := by
  obtain ⟨-, -, earlier, part, -, hissued, -, -, -, hrebuilds⟩ := (((working_fresh h).run hrun).latest j hj).split
  refine ⟨earlier, part, hissued, hrebuilds.going, fun r hr => ?_⟩
  obtain ⟨before, l, after, hpart, hbefore, hcomes, hdeletes, -⟩ := hrebuilds.returned r hr
  exact ⟨before, l, after, hpart, hbefore, hcomes, hdeletes⟩

/-- The second job goes by what the program returns when its first command exits with 1. -/
theorem rebuild_refines_twice : ∃ l, l <:+: issued dryBox (fresh exampleHost) rebuiltTwice ∧
    Jobs.Comes (dryBox.Rebuild .switch) l (.inr ⟨1, none, false⟩) := by
  have hrun : run (fresh exampleHost) rebuiltTwice = some lockedTwice := (Option.some_get _).symm
  have hjob : lockedTwice.state.job.map (fun j => (j.rebuilt, j.fn.mode)) =
      some (some ⟨1, none, false⟩, .switch) := by
    decide +kernel
  obtain ⟨j, hj, hreturned⟩ := Option.map_eq_some_iff.1 hjob
  obtain ⟨hr, hmode⟩ := Prod.mk.inj hreturned
  obtain ⟨earlier, part, hissued, -, hrebuilt⟩ := rebuild_refines exampleHost dryBox hrun hj
  obtain ⟨before, l, after, rfl, -, hcomes, -⟩ := hrebuilt _ hr
  rw [hmode] at hcomes
  exact ⟨l, ⟨earlier ++ before, after, by rw [hissued]; simp only [List.append_assoc]⟩, hcomes⟩

end Service

end Nixbox
