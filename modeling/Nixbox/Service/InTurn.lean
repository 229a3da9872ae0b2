/-
Requests that are handled one at a time: what a request has looked up is still so when it writes, so each row
goes to the workload whose workload.nix was written, and the condition on the files and the histories is met.
-/
import Nixbox.Service.Destroys
import Nixbox.Service.Files

namespace Nixbox

open Effect Prog Store Server Keyed Directory
open Nix hiding FlakeInput

/-! ## What a job is started for -/

/-- What is known of a job that a call starts. -/
def Op.Spawns (P : Running → Prop) (β : Type) : Op β → Prop
  | .spawn job => P job
  | _ => True

/-- A destroy job is started for the workload that was looked up under its name, by a request that writes no
workload.nix. -/
def aiming (r : Request) : Discipline Op (List (Exchange Op)) where
  allows l op := op.Spawns fun job => job.phase = .logFile ∧ ∀ n id type deleteData,
    job.fn = .destroy n id type deleteData → r.files = none ∧
      ∃ w : Workload, lookedUp n (.ok w) ∈ l ∧ w.id = id
  next l op b := l ++ [⟨op, b⟩]

section Aiming

variable {α ε : Type} {P : Running → Prop} {ks : List Kind} {r : Request} {l : List (Exchange Op)} {fn : JobFn}

theorem aiming_after (r : Request) (l more : List (Exchange Op)) : (aiming r).after l more = l ++ more :=
  Discipline.after_trace (fun _ _ _ => rfl) l more

/-- Where the slot is not touched nothing is started. -/
theorem Within.spawns {p : Prog Op α} (h : Within ks p) (hslot : .slot ∉ ks) : p.Uses (Op.Spawns P) := by
  refine Uses.mono h fun β op hop => ?_
  cases op with
  | spawn => exact absurd hop hslot
  | _ => trivial

/-- The manager starts the function it was given. -/
theorem start_spawns {kind : JobKind} {wid : Option ID} (h : ∀ row, P { row := row, fn := fn, phase := .logFile }) :
    Uses (Op.Spawns P) (Jobs.start kind wid fn).run := by
  have hgive : ∀ e, Uses (Op.Spawns P) (Jobs.giveBack e).run := fun e =>
    uses_exceptT_bind (uses_lift (uses_perform trivial)) fun _ => uses_throw _
  refine uses_exceptT_bind (uses_lift (uses_perform trivial)) fun claimed => ?_
  split
  · refine uses_exceptT_bind (uses_lift ?_) fun r => ?_
    · exact uses_exceptT_bind (uses_perform trivial) fun _ => uses_perform trivial
    · split
      · exact hgive _
      · refine uses_exceptT_bind (uses_lift (uses_perform trivial)) fun r => ?_
        split
        · exact hgive _
        · exact uses_exceptT_bind (uses_lift (uses_perform (h _))) fun _ => uses_return _
  · exact uses_throw _

theorem answerJob_spawns {page : String} {x : ExceptT Jobs.StartError (Prog Op) Job} (hx : Uses (Op.Spawns P) x.run) :
    Uses (Op.Spawns P) (answerJob page x).run := by
  refine uses_exceptT_bind (uses_lift hx) fun r => ?_
  split
  · exact uses_throw _
  · exact uses_throw _
  · exact uses_return _

/-- An apply starts no destroy job. -/
theorem startApply_spawns {page : String} {wid : Option ID} {mode : RebuildMode}
    (h : ∀ job : Running, job.phase = .logFile →
      (∀ n id type deleteData, job.fn ≠ .destroy n id type deleteData) → P job) :
    Uses (Op.Spawns P) (answerJob page (startApply wid mode)).run := by
  have hprepare : Within [.read, .index, .flake, .prune] prepareApply.run :=
    prepareApply_within (by decide) (by decide) (by decide) (by decide)
  refine answerJob_spawns (uses_exceptT_bind (uses_adapt (Within.spawns hprepare (by decide))) fun _ => ?_)
  exact start_spawns fun row => h _ rfl nofun

/-- Programs whose calls keep to the discipline wherever `I` holds, which no call spoils. -/
theorem Uses.aiming {I : List (Exchange Op) → Prop} {p : Prog Op α} (h : p.Uses (Op.Spawns P))
    (hI : ∀ l c, I l → I (l ++ [c]))
    (hP : ∀ l job, I l → P job → (Nixbox.aiming r).allows l (.spawn job)) (hl : I l) :
    p.Keeps (Nixbox.aiming r) (fun _ _ => True) l := by
  refine (Uses.keeps_inv h (fun β op q hop hq => ⟨?_, fun b => hI q ⟨op, b⟩ hq⟩) hl).mono fun _ _ _ => trivial
  cases op with
  | spawn job => exact hP q job hq hop
  | _ => trivial

/-- A workload looked up is found among the calls. -/
theorem lookupWorkload_aiming (name : String) : (lookupWorkload name).run.Keeps (aiming r) (fun x l => match x with
    | .ok w => w.name = name ∧ lookedUp name (.ok w) ∈ l
    | .error _ => True) [] := by
  unfold lookupWorkload lookupBy
  split
  · exact keeps_throw.2 trivial
  · refine Keeps.seqE (P := fun x l => lookedUp name x ∈ l ∧ ∀ w, x = .ok w →
      w.name = name) (keeps_lift.2 ?_) fun x l h => ?_
    · refine keeps_perform trivial fun x hanswer => ⟨List.mem_singleton_self _, fun w hw => ?_⟩
      rcases hanswer with ⟨s, hs⟩ | hs
      · rw [hw] at hs
        exact (workloadByName_ok hs).2
      · rw [hw] at hs
        cases hs
    · match x, h with
      | .error .notFound, _ => exact keeps_throw.2 trivial
      | .error .failed, _ => exact keeps_throw.2 trivial
      | .ok w, h => exact keeps_return.2 ⟨h.2 w rfl, h.1⟩

theorem handleWorkloadDestroy_aiming (name confirm deleteData : String) :
    (handleWorkloadDestroy name confirm deleteData).run.Keeps (aiming (.workloadDestroy name confirm deleteData))
      (fun _ _ => True) [] := by
  refine Keeps.seqE (P := fun w l => w.name = name ∧ lookedUp name (.ok w) ∈ l) ?_ fun w l h => ?_
  · refine (lookupWorkload_aiming name).mono fun x l h => ?_
    cases x with
    | ok w => exact h
    | error _ => trivial
  · obtain ⟨rfl, hmem⟩ := h
    split
    · -- what is started is the destroy job of the workload found
      refine Uses.aiming (P := fun job => job.phase = .logFile ∧
        job.fn = .destroy w.name w.id w.type (deleteData == "on"))
        (I := fun l => lookedUp w.name (.ok w) ∈ l) ?_ (fun l c h => List.mem_append_left _ h)
          (fun l job h hjob => ?_) hmem
      · have hdisable : Within [.workloadRow] (orError (setWorkloadEnabled w.id false)).run :=
          orError_within (within_write (List.mem_singleton.2 rfl))
        have hindex : Within [.read, .index] (orError regenerateIndex).run :=
          orError_within (regenerateIndex_within (by decide) (by decide))
        refine uses_exceptT_bind (Within.spawns hdisable (by decide)) fun _ => ?_
        refine uses_exceptT_bind (Within.spawns hindex (by decide)) fun _ => ?_
        exact answerJob_spawns (start_spawns fun row => ⟨rfl, rfl⟩)
      · refine ⟨hjob.1, fun n id type data hfn => ⟨rfl, w, ?_⟩⟩
        rw [hjob.2] at hfn
        cases hfn
        exact ⟨h, rfl⟩
    · exact keeps_throw.2 trivial

/-- Every request starts jobs so. -/
theorem serve_aiming (r : Request) : (serve r).Keeps (aiming r) (fun _ _ => True) [] := by
  have hanswer : (handler r).run.Keeps (aiming r) (fun _ _ => True) [] →
      (serve r).Keeps (aiming r) (fun _ _ => True) [] := by
    intro hh
    refine keeps_bind.2 (hh.mono fun x l _ => ?_)
    cases x with
    | ok _ => exact keeps_ret.2 trivial
    | error _ => exact keeps_ret.2 trivial
  have happly : ∀ {page wid mode}, Uses (Op.Spawns fun job => (aiming r).allows [] (.spawn job))
      (answerJob page (startApply wid mode)).run := by
    intro page wid mode
    refine startApply_spawns fun job hphase hfn => ⟨hphase, fun n id type data heq => ?_⟩
    exact absurd heq (hfn n id type data)
  have hlook : ∀ name, Uses (Op.Spawns fun job => (aiming r).allows [] (.spawn job)) (lookupWorkload name).run :=
    fun name => by
      have hreads : Within [.read] (lookupWorkload name).run := lookupWorkload_within (by decide) name
      exact Within.spawns hreads (by decide)
  -- what may be started with no lookup made may be started with any
  have huses : Uses (Op.Spawns fun job => (aiming r).allows [] (.spawn job)) (handler r).run →
      (handler r).run.Keeps (aiming r) (fun _ _ => True) [] := by
    intro h
    refine Uses.aiming (I := fun _ => True) h (fun _ _ _ => trivial) (fun l job _ hjob => ?_) trivial
    refine ⟨hjob.1, fun n id type data hfn => ?_⟩
    obtain ⟨hfiles, w, hw, hid⟩ := hjob.2 n id type data hfn
    cases hw
  refine hanswer ?_
  cases r with
  | workloadApply name mode => exact huses (uses_exceptT_bind (hlook name) fun wl => happly)
  | flakeApply mode | secretApply mode | rebuild => exact huses happly
  | workloadDestroy name confirm deleteData => exact handleWorkloadDestroy_aiming name confirm deleteData
  | _ => exact huses (Within.spawns (handler_within _) (by simp))

end Aiming

/-! ## The invariant -/

/-- What a lookup has answered is still so, of the ids and names of the workloads. -/
def Found (name : String) (r : Except Err Workload) (db : Db) : Prop :=
  ∀ x ∈ db.workloads, match r with
    | .ok w => x.name = name ↔ x.id = w.id
    | .error .notFound => x.name ≠ name
    | .error .failed => True

/-- A request comes in when those before it are answered and no destroy job is in flight, and no row write fails. -/
def inTurn (p : Pool) : Move → Bool
  | .start _ => p.returned && p.state.destroying.isNone
  | .call k fails => !fails || !(p.threads[k]?.any due)
  | .env _ => true

/-- One request at most is under way; what it has looked up is so until it writes its row, and it was the last to
write its workload.nix. A destroy job is about the workload of its name, and meanwhile no request writes one. -/
structure InTurn (p : Pool) : Prop where
  wf : p.state.db.WF
  filing : p.Keeping (fun r => filing r.files) (fun _ _ l => wrote l = none) fun _ => []
  aiming : p.Keeping aiming (fun _ _ _ => True) fun _ => []
  alone : ∀ (i k : Nat) (t u : Thread), p.threads[i]? = some t → p.threads[k]? = some u →
    t.prog.returned = false → u.prog.returned = false → i = k
  found : ∀ (k : Nat) (t : Thread), p.threads[k]? = some t → t.prog.returned = false →
    revised (trace k p.log) = false → ∀ name r, lookedUp name r ∈ trace k p.log → Found name r p.state.db
  last : ∀ (k : Nat) (t : Thread), p.threads[k]? = some t → ∀ name, t.tag.files = some name →
    (wrote (trace k p.log)).isSome → filer name p.log = some k
  job : ∀ j, p.state.job = some j → ∀ name id type deleteData, j.fn = .destroy name id type deleteData →
    j.phase ≠ .exited → (∀ x ∈ p.state.db.workloads, x.name = name ↔ x.id = id) ∧
      (j.phase = .removeDir → ∀ x ∈ p.state.db.workloads, x.name ≠ name) ∧
      ∀ t ∈ p.threads, t.prog.returned = false → t.tag.files = none

section InTurn

variable {p p' : Pool} {name : String} {r : Except Err Workload} {db db' : Db}

theorem Found.noNew (h : Found name r db)
    (hrows : ∀ x' ∈ db'.workloads, ∃ x ∈ db.workloads, x.id = x'.id ∧ x.name = x'.name) :
    Found name r db' := by
  intro x' hx'
  obtain ⟨x, hx, hid, hname⟩ := hrows x' hx'
  rw [← hid, ← hname]
  exact h x hx

/-- So it is when the lookup is made. -/
theorem found_workloadByName (hwf : db.WF) : Found name (db.workloadByName name) db := by
  intro x hx
  cases hlook : db.workloadByName name with
  | ok w =>
    obtain ⟨hw, hname⟩ := workloadByName_ok hlook
    constructor
    · intro hx'
      rw [hwf.workloadNames x hx w hw (hx'.trans hname.symm)]
    · intro hid
      rw [Table.eq_of_rowid hx hw hid]
      exact hname
  | error e =>
    cases e with
    | notFound => exact Db.workloadByName_error hlook x hx
    | failed => trivial

/-- A call that records no revision leaves what was found. -/
theorem advanced_noNew {fails : Bool} {q q' : Prog Op Response} {s s' : State} {c : Exchange Op}
    (h : Advanced fails q s c q' s') (hr : c.op.kind ≠ .revision) :
    ∀ x' ∈ s'.db.workloads, ∃ x ∈ s.db.workloads, x.id = x'.id ∧ x.name = x'.name := by
  rcases h.effect with hexec | ⟨-, rfl⟩
  · obtain rfl : (s.exec c.op).2 = s' := congrArg Prod.snd hexec
    exact exec_noNew hr
  · exact fun x' hx' => ⟨x', hx', rfl, rfl⟩

/-- What a call looks up is found. -/
theorem found_advanced {fails : Bool} {q q' : Prog Op Response} {s s' : State}
    (h : Advanced fails q s (lookedUp name r) q' s') (hwf : s.db.WF) : Found name r s'.db := by
  rcases h.effect with hexec | ⟨hfault, -⟩
  · cases hexec
    exact found_workloadByName hwf
  · cases hfault
    exact fun _ _ => trivial

/-- A request that writes no workload.nix records no revision. -/
theorem InTurn.revised_none (h : InTurn p) {k : Nat} {t : Thread} (ht : p.threads[k]? = some t)
    (hfiles : t.tag.files = none) : revised (trace k p.log) = false := by
  refine List.any_eq_false.2 fun c hc hkind => ?_
  obtain ⟨e, he, rfl, rfl⟩ := mem_trace.1 hc
  obtain ⟨pre, -, hallow⟩ := h.filing.allowed.of_mem he
  obtain ⟨u, hu, htag⟩ := h.filing.own e he
  rw [ht] at hu
  cases hu
  rw [← htag, hfiles] at hallow
  obtain ⟨n, hn⟩ := filing_name hallow (by simpa using hkind)
  cases hn

/-- The thread that makes a call is the one under way. -/
theorem InTurn.other_returned (h : InTurn p) {i k : Nat} {t u : Thread} (ht : p.threads[k]? = some t)
    (hcall : t.prog.returned = false) (hu : p.threads[i]? = some u) (hne : i ≠ k) : u.prog.returned = true := by
  rw [← Bool.not_eq_false]
  exact fun hrunning => hne (h.alone i k u t hu ht hrunning hcall)

theorem Advanced.unreturned {fails : Bool} {q q' : Prog Op Response} {s s' : State} {c : Exchange Op}
    (h : Advanced fails q s c q' s') : q.returned = false := by
  obtain ⟨k, rfl, -⟩ := h.rest
  rfl

/-- A thread that is under way after a call of thread `k` is this one. -/
theorem InTurn.under_way (h : InTurn p) {i k : Nat} {t u : Thread} {prog : Prog Op Response}
    (ht : p.threads[k]? = some t) (hcall : t.prog.returned = false)
    (hu : (p.threads.set k ⟨t.tag, prog⟩)[i]? = some u) (hrunning : u.prog.returned = false) :
    i = k ∧ u = ⟨t.tag, prog⟩ := by
  by_cases hik : i = k
  · subst hik
    rw [List.getElem?_set_self (List.getElem?_eq_some_iff.1 ht).1] at hu
    exact ⟨rfl, (Option.some.inj hu).symm⟩
  · rw [List.getElem?_set_ne (Ne.symm hik)] at hu
    rw [h.other_returned ht hcall hu hik] at hrunning
    cases hrunning

/-- What a call has found, and what was found before it. -/
theorem InTurn.found_call (h : InTurn p) {k : Nat} {fails : Bool} {t : Thread} {c : Exchange Op}
    {prog : Prog Op Response} {s' : State} (ht : p.threads[k]? = some t)
    (hadv : Advanced fails t.prog p.state c prog s') (hrev : revised (trace k p.log ++ [c]) = false)
    (hmem : lookedUp name r ∈ trace k p.log ++ [c]) :
    Found name r s'.db := by
  rw [revised_snoc, Bool.or_eq_false_iff] at hrev
  rcases List.mem_append.1 hmem with hmem | hmem
  · have hfound := h.found k t ht (Advanced.unreturned hadv) hrev.1 name r hmem
    exact hfound.noNew (advanced_noNew hadv (by simpa using hrev.2))
  · obtain rfl := List.mem_singleton.1 hmem
    exact found_advanced hadv h.wf

/-- The last to write a workload.nix is still the one under way. -/
theorem InTurn.last_call (h : InTurn p) {k : Nat} {fails : Bool} (hs : Service.step p (.call k fails) = some p')
    (i : Nat) (u : Thread) (hu : p'.threads[i]? = some u) (hfiles : u.tag.files = some name)
    (hw : (wrote (trace i p'.log)).isSome) : filer name p'.log = some i := by
  obtain ⟨t, c, prog, ht, hadv, hthreads, hlog⟩ := Pool.step_call hs
  have hkept := h.filing.step (fun r => serve_filing r) hs
  have hkeeps := hkept.kept i u hu
  rw [filing_after, List.nil_append] at hkeeps
  -- it has its row to write, so it is under way
  have hrunning : u.prog.returned = false := by
    obtain ⟨tag, prog⟩ := u
    cases prog with
    | ret a =>
      rw [keeps_ret.1 hkeeps] at hw
      cases hw
    | call => rfl
  rw [hthreads] at hu
  obtain ⟨rfl, rfl⟩ := h.under_way ht (Advanced.unreturned hadv) hu hrunning
  have hbefore := h.filing.kept i t ht
  rw [filing_after, List.nil_append] at hbefore
  rw [hlog, show trace i (p.log ++ [⟨c, i, t.tag, p.state⟩]) = trace i p.log ++ [c] from
    trace_snoc_self (e := ⟨c, i, t.tag, p.state⟩), wrote_snoc, Option.isSome_map] at hw
  obtain ⟨⟨n, content⟩, hfiled⟩ := Option.isSome_iff_exists.1 hw
  obtain rfl : n = name := Option.some.inj ((filed_name (hadv.keeps hbefore).1 hfiled).symm.trans hfiles)
  rw [hlog, filer_snoc]
  dsimp only
  rw [hfiled, if_pos (by simp)]

/-- Only the call that starts a job changes the one in flight. -/
theorem advanced_job {fails : Bool} {q q' : Prog Op Response} {s s' : State} {c : Exchange Op} {j : Running}
    (h : Advanced fails q s c q' s') (hj : s'.job = some j) (hnew : s.job ≠ some j) :
    c = ⟨.spawn j, ()⟩ ∧ s'.db = s.db := by
  obtain ⟨op, b⟩ := c
  rcases h.effect with hexec | ⟨-, rfl⟩
  · by_cases hk : op.kind = .slot
    · cases op with
      | spawn job =>
        cases hexec
        cases hj
        exact ⟨rfl, rfl⟩
      | casBusy | storeBusy =>
        cases hexec
        exact absurd hj hnew
      | write w => cases w <;> cases hk
      | _ => cases hk
    · obtain rfl : (s.exec op).2 = s' := congrArg Prod.snd hexec
      have hframe := exec_frame (List.mem_singleton_self op.kind) s
      rw [(hframe.slot (by simpa using Ne.symm hk)).2] at hj
      exact absurd hj hnew
  · exact absurd hj hnew

/-- A job that a call starts is about the workload that was found; another goes on as it was. -/
theorem InTurn.job_call (h : InTurn p) {k : Nat} {fails : Bool} {t : Thread} {c : Exchange Op} {prog : Prog Op Response}
    {s' : State} (ht : p.threads[k]? = some t) (hadv : Advanced fails t.prog p.state c prog s') (j : Running)
    (hj : s'.job = some j) {id : ID} {type : String} {deleteData : Bool} (hfn : j.fn = .destroy name id type deleteData)
    (hphase : j.phase ≠ .exited) : (∀ x ∈ s'.db.workloads, x.name = name ↔ x.id = id) ∧
      (j.phase = .removeDir → ∀ x ∈ s'.db.workloads, x.name ≠ name) ∧ t.tag.files = none := by
  have hcall := Advanced.unreturned hadv
  by_cases hsame : p.state.job = some j
  · obtain ⟨hid, hremoved, hfiles⟩ := h.job j hsame name id type deleteData hfn hphase
    have hnone := hfiles t (List.mem_of_getElem? ht) hcall
    have hkeeps := h.filing.kept k t ht
    have hrev : c.op.kind ≠ .revision := by
      intro hkind
      obtain ⟨n, hn⟩ := filing_name (hadv.keeps hkeeps).1 hkind
      rw [hnone] at hn
      cases hn
    have hrows := advanced_noNew hadv hrev
    refine ⟨fun x' hx' => ?_, fun hp x' hx' => ?_, hnone⟩
    · obtain ⟨x, hx, hxid, hxname⟩ := hrows x' hx'
      rw [← hxid, ← hxname]
      exact hid x hx
    · obtain ⟨x, hx, -, hxname⟩ := hrows x' hx'
      rw [← hxname]
      exact hremoved hp x hx
  · obtain ⟨rfl, hdb⟩ := advanced_job hadv hj hsame
    have hkeeps := h.aiming.kept k t ht
    rw [aiming_after, List.nil_append] at hkeeps
    obtain ⟨hstarts, htarget⟩ := (hadv.keeps hkeeps).1
    obtain ⟨hnone, w, hmem, hw⟩ := htarget name id type deleteData hfn
    have hfound := h.found k t ht hcall (h.revised_none ht hnone) name (.ok w) hmem
    rw [hdb]
    refine ⟨fun x hx => ?_, fun hp => ?_, hnone⟩
    · rw [← hw]
      exact hfound x hx
    · rw [hstarts] at hp
      cases hp

theorem InTurn.call (h : InTurn p) {k : Nat} {fails : Bool} (hs : Service.step p (.call k fails) = some p') :
    InTurn p' := by
  obtain ⟨t, c, prog, ht, hadv, hthreads, hlog⟩ := Pool.step_call hs
  have hcall := Advanced.unreturned hadv
  have htrace : trace k p'.log = trace k p.log ++ [c] := by
    rw [hlog]
    exact trace_snoc_self (e := ⟨c, k, t.tag, p.state⟩)
  refine ⟨exec_advanced_wf hadv h.wf, h.filing.step (fun r => serve_filing r) hs,
    h.aiming.step serve_aiming hs, ?_, ?_, fun i u hu name hfiles hw => h.last_call hs i u hu hfiles hw, ?_⟩
  · intro i l u v hu hv hui hvl
    rw [hthreads] at hu hv
    exact (h.under_way ht hcall hu hui).1.trans (h.under_way ht hcall hv hvl).1.symm
  · intro i u hu hrunning hrev name r hmem
    rw [hthreads] at hu
    obtain ⟨rfl, -⟩ := h.under_way ht hcall hu hrunning
    rw [htrace] at hrev hmem
    exact h.found_call ht hadv hrev hmem
  · intro j hj name id type deleteData hfn hphase
    obtain ⟨hid, hremoved, hnone⟩ := h.job_call ht hadv j hj hfn hphase
    refine ⟨hid, hremoved, fun u hu hrunning => ?_⟩
    rw [hthreads] at hu
    obtain ⟨i, hi⟩ := List.mem_iff_getElem?.1 hu
    obtain ⟨-, rfl⟩ := h.under_way ht hcall hi hrunning
    exact hnone

/-- Of the steps of a destroy job only the deletion of the row leads to the removal of the directory. -/
theorem removeDir_of_deleted {i : Jobs.Input} {s s' : State} {j j' : Running} (hst : Jobs.Stepped i s j s' j')
    (hp : j'.phase = .removeDir) : ∃ name id type deleteData, j.fn = .destroy name id type deleteData ∧
      s.db.deleteWorkload id = .ok s'.db := by
  have hreturned : ∀ j r, (Jobs.rebuildReturned j r).phase ≠ .removeDir := by
    intro j r
    unfold Jobs.rebuildReturned
    dsimp only
    split <;> split <;> exact nofun
  cases hst with
  | deletedRow _ hfn hdb => exact ⟨_, _, _, _, hfn, hdb⟩
  | opened =>
    unfold Jobs.begin at hp
    dsimp only at hp
    split at hp <;> cases hp
  | lockFailed | refreshFailed | switched | switchFailed => exact absurd hp (hreturned _ _)
  | _ => cases hp

/-- A step of the job. -/
theorem InTurn.env (h : InTurn p) {i : Jobs.Input} (hs : Service.step p (.env i) = some p') : InTurn p' := by
  have hfiling := h.filing.step (fun r => serve_filing r) hs
  have haiming := h.aiming.step serve_aiming hs
  obtain ⟨s, hjob, rfl⟩ := Pool.step_env hs
  obtain ⟨j, t, j', hj, hst, rfl⟩ := Jobs.step_some hjob
  have hrows := job_noNew hst
  refine ⟨hst.wf h.wf, hfiling, haiming, h.alone, fun k u hu hrunning hrev name r hmem => ?_, h.last, ?_⟩
  · exact (h.found k u hu hrunning hrev name r hmem).noNew hrows
  · intro j₁ hj₁ name id type deleteData hfn hphase
    obtain rfl : j' = j₁ := Option.some.inj hj₁
    rw [hst.frame.1] at hfn
    obtain ⟨hid, -, hfiles⟩ := h.job j hj name id type deleteData hfn hst.running
    refine ⟨fun x' hx' => ?_, fun hp x' hx' => ?_, hfiles⟩
    · obtain ⟨x, hx, hxid, hxname⟩ := hrows x' hx'
      rw [← hxid, ← hxname]
      exact hid x hx
    · -- the row that had the name is the one that was deleted
      obtain ⟨n, id', type', data', hfn', hdb⟩ := removeDir_of_deleted hst hp
      rw [hfn] at hfn'
      cases hfn'
      obtain ⟨hx, hne, -⟩ := deleteWorkload_kept hdb hx'
      exact fun hname => hne ((hid x' hx).1 hname)

/-- A request comes in. -/
theorem InTurn.start (h : InTurn p) {r : Request} (hturn : inTurn p (.start r) = true)
    (hs : Service.step p (.start r) = some p') : InTurn p' := by
  have hfiling := h.filing.step (fun r => serve_filing r) hs
  have haiming := h.aiming.step serve_aiming hs
  obtain ⟨hdone, hfree⟩ := Bool.and_eq_true_iff.1 hturn
  cases hs
  -- the others have returned
  have hlast : ∀ (k : Nat) (t : Thread), (p.threads ++ [⟨r, serve r⟩])[k]? = some t →
      t.prog.returned = false → k = p.threads.length := by
    intro k t ht hrunning
    rcases Nat.lt_or_ge k p.threads.length with hlt | hge
    · rw [List.getElem?_append_left hlt] at ht
      rw [List.all_eq_true.1 hdone t (List.mem_of_getElem? ht)] at hrunning
      cases hrunning
    · have hlt := (List.getElem?_eq_some_iff.1 ht).1
      rw [List.length_append, List.length_singleton] at hlt
      omega
  have hunstarted := h.filing.trace_unstarted
  refine ⟨h.wf, hfiling, haiming, fun i k t u ht hu hi hk => ?_, fun k t ht hrunning _ name x hmem => ?_,
    fun k t ht name hfiles hw => ?_, fun j hj name id type deleteData hfn hphase => ?_⟩
  · exact (hlast i t ht hi).trans (hlast k u hu hk).symm
  · rw [hlast k t ht hrunning] at hmem
    dsimp only at hmem
    rw [hunstarted] at hmem
    cases hmem
  · dsimp only at ht hw
    rcases Nat.lt_or_ge k p.threads.length with hlt | hge
    · rw [List.getElem?_append_left hlt] at ht
      exact h.last k t ht name hfiles hw
    · have hlt := (List.getElem?_eq_some_iff.1 ht).1
      rw [List.length_append, List.length_singleton] at hlt
      obtain rfl : k = p.threads.length := by omega
      rw [hunstarted] at hw
      cases hw
  · have hdestroying := State.destroying_of_job (s := p.state) hj ⟨hphase, id, type, deleteData, hfn⟩
    rw [hdestroying] at hfree
    cases hfree

/-! ## The condition is met -/

/-- A revision is recorded of the workload whose workload.nix was written, and the request was the last to write that;
or the workload is gone. -/
theorem InTurn.recorded (h : InTurn p) {k : Nat} {r : Request} {β : Type} {op : Op β} {next : β → Prog Op Response}
    (ht : p.threads[k]? = some ⟨r, .call op next⟩) (hn : r.files = some name) (hk : op.kind = .revision) :
    (∃ content, op.recorded p.state = some (name, content) ∧ filer name p.log = some k) ∨
      op.recorded p.state = none ∧ ∀ x ∈ p.state.db.workloads, x.name ≠ name := by
  have hkeeps := h.filing.kept k _ ht
  rw [filing_after, List.nil_append] at hkeeps
  have hallow := (keeps_call.1 hkeeps).1
  dsimp only at hallow
  cases op with
  | write w =>
    cases w with
    | createWorkload m displayName typ content ports =>
      obtain ⟨hwrote, hrev, hm, hmem⟩ := hallow
      obtain rfl : m = name := Option.some.inj (hm.symm.trans hn)
      refine .inl ⟨content, ?_, h.last k _ ht m hn (by rw [hwrote]; rfl)⟩
      have hfree := h.found k _ ht rfl hrev m _ hmem
      unfold Op.recorded Write.recorded
      dsimp only
      split
      · rename_i w hw
        obtain ⟨hw, hname⟩ := workloadByName_ok hw
        exact absurd hname (hfree w hw)
      · rfl
    | saveRevision id content ports note =>
      obtain ⟨hwrote, hrev, m, w, hm, hmem, rfl⟩ := hallow
      obtain rfl : m = name := Option.some.inj (hm.symm.trans hn)
      have hfound := h.found k _ ht rfl hrev m _ hmem
      cases hrow : p.state.db.workloads.find? w.id with
      | some x =>
        obtain ⟨hx, hid⟩ := Table.find?_eq_some.1 hrow
        have hname : x.name = m := (hfound x hx).2 hid
        refine .inl ⟨content, ?_, h.last k _ ht m hn (by rw [hwrote]; rfl)⟩
        show (p.state.db.workloads.find? w.id).map (fun w => (w.name, content)) = _
        rw [hrow, Option.map_some, hname]
      | none =>
        refine .inr ⟨?_, fun x hx hname => Table.find?_eq_none.1 hrow x hx ((hfound x hx).1 hname)⟩
        show (p.state.db.workloads.find? w.id).map (fun w => (w.name, content)) = _
        rw [hrow]
        rfl
    | _ => cases hk
  | _ => cases hk

/-- A row write meets the condition. -/
theorem InTurn.guarded_call (h : InTurn p) {k : Nat} {fails : Bool} (hturn : inTurn p (.call k fails) = true) :
    filesGuarded p (.call k fails) = true := by
  unfold filesGuarded
  dsimp only
  split
  · rename_i r β op next ht
    have hkeeps := h.filing.kept k _ ht
    rw [filing_after, List.nil_append] at hkeeps
    have hallow := (keeps_call.1 hkeeps).1
    by_cases hk : op.kind = .revision
    · obtain ⟨n, hn⟩ := filing_name hallow hk
      have hok : fails = false := by
        have hdue : due ⟨r, .call op next⟩ = true := beq_iff_eq.2 hk
        unfold inTurn at hturn
        dsimp only at hturn
        rw [ht, Option.any_some, hdue] at hturn
        simpa using hturn
      have hrecorded := h.recorded ht hn hk
      rw [hn, Option.all_some, hok, if_neg Bool.false_ne_true]
      rcases hrecorded with ⟨content, hrec, hlast⟩ | ⟨hrec, hfree⟩
      · rw [hrec]
        simp [hlast]
      · have hnone : p.state.db.workloads.rows.any (·.name == n) = false := by
          refine List.any_eq_false.2 fun w hw => ?_
          simpa using hfree w hw
        rw [hrec]
        simp [hnone]
    · simp [hk]
  · rfl

/-- So does the removal of a directory. -/
theorem InTurn.guarded_env (h : InTurn p) (i : Jobs.Input) : filesGuarded p (.env i) = true := by
  unfold filesGuarded
  dsimp only
  split
  · rename_i row name id type deleteData picked rebuilt result hj
    obtain ⟨-, hremoved, hfiles⟩ := h.job _ hj name id type deleteData rfl nofun
    have hfree : p.state.db.workloads.rows.any (·.name == name) = false := by
      refine List.any_eq_false.2 fun w hw => ?_
      simpa using hremoved rfl w hw
    have hnone : dueFor name p.threads = false := by
      rw [← Bool.not_eq_true]
      intro hdue
      obtain ⟨t, ht, hdue, hname⟩ := dueFor_iff.1 hdue
      have hrunning : t.prog.returned = false := by
        obtain ⟨r, prog⟩ := t
        cases prog with
        | ret => cases hdue
        | call => rfl
      rw [hfiles t ht hrunning] at hname
      cases hname
    rw [hfree, hnone]
    exact Bool.or_true _
  · rfl

/-- Requests that are handled one at a time, none of whose row writes fail, meet the condition on the files. Jobs go on
between their calls; only a destroy job has to be done before the next request comes in. -/
theorem guarded_of_inTurn {h : Host} {ms : List Move}
    (hturn : Runs.Along Service.step (fun p m => inTurn p m = true) (Service.fresh h) ms) :
    Runs.Along Service.step (fun p m => filesGuarded p m = true) (Service.fresh h) ms := by
  have hfresh : InTurn (Service.fresh h) :=
    ⟨Db.wf_empty, Pool.keeping_fresh _, Pool.keeping_fresh _, fun _ _ _ _ ht => (nomatch ht),
      fun _ _ ht => (nomatch ht), fun _ _ ht => (nomatch ht), fun _ hj => (nomatch hj)⟩
  refine Runs.along_of_inv (I := InTurn) (fun p m p' hm hp hs => ?_) (fun p m hm hp => ?_) hturn hfresh
  · cases m with
    | start r => exact hp.start hm hs
    | call k fails => exact hp.call hs
    | env i => exact hp.env hs
  · cases m with
    | start r => rfl
    | call k fails => exact hp.guarded_call hm
    | env i => exact hp.guarded_env i

/-- A workload is created, saved and destroyed, one after the other. -/
example : Runs.Along Service.step (fun p m => inTurn p m = true) (Service.fresh exampleHost)
    ([.start (.workloadCreate ⟨"web", "", "nixos-container", "blank", false⟩)] ++ calls 0 4 ++
      [.start (saveWeb "{ a = 1; }")] ++ calls 1 4 ++ [.start (.workloadDestroy "web" "web" "")] ++ calls 2 10 ++
      List.replicate 10 (.env .ok)) := by
  decide +kernel

end InTurn

end Nixbox
