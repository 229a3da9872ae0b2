/-
The files and the histories when requests overlap. A workload.nix and its row are written one after
the other, and nothing keeps another request from coming between: which orders of the calls leave the
two in agreement once all is done.
-/
import Nixbox.Server.Filing
import Nixbox.Service.Fits
import Nixbox.Service.Threads

namespace Nixbox

open Effect Prog Store Server Keyed Directory
open Nix hiding FlakeInput

/-! ## Definitions -/

/-- The next call of the thread records a revision. -/
def due (t : Thread) : Bool :=
  match t.prog with
  | .call op _ => op.kind == .revision
  | .ret _ => false

/-- Among these, a thread is about to record a revision of the workload `name`. -/
def dueFor (name : String) (ts : List Thread) : Bool := ts.any fun t => due t && t.tag.files == some name

/-- The thread that has written the workload.nix of `name` last. -/
def filer (name : String) (log : List (Effect.Event Op State Request)) : Option Nat :=
  log.foldl (fun last e => if (filed e.op e.answer).any (·.1 == name) then some e.thread else last) none

/-- The condition on a step. A row is written for the workload whose workload.nix the request has written, and
no other has written that file since; a row write that fails finds no workload of the name. Short of that,
another request must be about to write its row for the workload. A directory is removed when no workload has its
name and no request is about to write the row of one. -/
def filesGuarded (p : Pool) : Move → Bool
  | .call k fails =>
    match p.threads[k]? with
    | some ⟨r, .call op _⟩ => op.kind != .revision || r.files.all fun name =>
      match if fails then none else op.recorded p.state with
      | some (n, _) => n == name && (filer name p.log == some k || dueFor name (p.threads.eraseIdx k))
      | none => !(p.state.db.workloads.rows.any (·.name == name)) || dueFor name (p.threads.eraseIdx k)
    | _ => true
  | .env i =>
    match p.state.job with
    | some ⟨_, .destroy name .., .removeDir, _, _, _⟩ =>
      i.fault || (!(p.state.db.workloads.rows.any (·.name == name)) && !dueFor name p.threads)
    | _ => true
  | .start _ => true

/-- Each workload fits its file, or a request is about to record what it wrote there; who wrote a file last and
has not written its row finds there what it wrote. -/
structure Filed (p : Pool) : Prop where
  wf : p.state.db.WF
  keeping : p.Keeping (fun r => filing r.files) (fun _ _ l => wrote l = none) fun _ => []
  fits : ∀ name, p.state.fits name = true ∨ dueFor name p.threads = true
  written : ∀ (k : Nat) (t : Thread), p.threads[k]? = some t → ∀ name content, t.tag.files = some name →
    wrote (trace k p.log) = some content → filer name p.log = some k →
      p.state.disk.workloads.get? name = some content

/-! ## Threads -/

section Threads

variable {name : String} {ts : List Thread} {t t' : Thread} {k : Nat}

/-- A record is due exactly where the discipline says so. -/
theorem due_eq {r : Request} {n : Option String} {prog : Prog Op Response} {l : List (Exchange Op)}
    (h : prog.Keeps (filing n) (fun _ l => wrote l = none) l) : due ⟨r, prog⟩ = (wrote l).isSome := by
  cases prog with
  | ret a =>
    rw [keeps_ret.1 h]
    rfl
  | call op k => exact filing_due (keeps_call.1 h).1

theorem dueFor_iff : dueFor name ts = true ↔ ∃ t ∈ ts, due t = true ∧ t.tag.files = some name := by
  unfold dueFor
  simp only [List.any_eq_true, Bool.and_eq_true, beq_iff_eq]

/-- The other threads, when thread `k` makes its call. -/
theorem dueFor_set (h : dueFor name (ts.eraseIdx k) = true) : dueFor name (ts.set k t') = true := by
  obtain ⟨u, hu, hdue⟩ := dueFor_iff.1 h
  obtain ⟨i, hi, hget⟩ := List.mem_eraseIdx_iff_getElem?.1 hu
  refine dueFor_iff.2 ⟨u, ?_, hdue⟩
  refine List.mem_of_getElem? (i := i) ?_
  rw [List.getElem?_set_ne (Ne.symm hi), hget]

theorem dueFor_others (h : dueFor name ts = true) (ht : ts[k]? = some t)
    (hnot : due t = true → t.tag.files ≠ some name) : dueFor name (ts.eraseIdx k) = true := by
  obtain ⟨u, hu, hdue, hfiles⟩ := dueFor_iff.1 h
  obtain ⟨i, hget⟩ := List.mem_iff_getElem?.1 hu
  refine dueFor_iff.2 ⟨u, List.mem_eraseIdx_iff_getElem?.2 ⟨i, ?_, hget⟩, hdue, hfiles⟩
  rintro rfl
  rw [ht] at hget
  cases hget
  exact hnot hdue hfiles

end Threads

/-! ## Every step -/

section Steps

variable {p p' : Pool}

theorem filer_snoc {log : List (Effect.Event Op State Request)} {e : Effect.Event Op State Request} {name : String} :
    filer name (log ++ [e]) = if (filed e.op e.answer).any (·.1 == name) then some e.thread else filer name log := by
  unfold filer
  rw [List.foldl_append]
  rfl

/-- What a row write records is what the request wrote to the file. -/
theorem recorded_wrote {β : Type} {op : Op β} {s : State} {n content : String} {name : Option String}
    {l : List (Exchange Op)} (h : (filing name).allows l op) (hrec : op.recorded s = some (n, content)) :
    wrote l = some content := by
  cases op with
  | write w =>
    cases w with
    | createWorkload =>
      unfold Op.recorded Write.recorded at hrec
      dsimp only at hrec
      split at hrec
      · cases hrec
      · cases hrec
        exact h.1
    | saveRevision =>
      obtain ⟨w, -, heq⟩ := Option.map_eq_some_iff.1 hrec
      cases heq
      exact h.1
    | _ => cases hrec
  | _ => cases hrec

/-- The file holds what was written. -/
theorem filed_exec {fails : Bool} {q q' : Prog Op Response} {s s' : State} {c : Exchange Op} {name content : String}
    (h : Advanced fails q s c q' s') (hfiled : filed c.op c.answer = some (name, content)) :
    s'.disk.workloads.get? name = some content := by
  obtain ⟨op, b⟩ := c
  cases op with
  | writeWorkload n content' =>
    rcases h.effect with hexec | ⟨hfault, -⟩
    · cases hexec
      cases hfiled
      exact Dir.get?_put_self
    · cases hfault
      cases hfiled
  | _ => cases hfiled

/-- A call that does not write the file leaves it. -/
theorem file_kept {fails : Bool} {q q' : Prog Op Response} {s s' : State} {c : Exchange Op} {name : String}
    (h : Advanced fails q s c q' s') (hother : (filed c.op c.answer).any (·.1 == name) = false) :
    s'.disk.workloads.get? name = s.disk.workloads.get? name := by
  obtain ⟨op, b⟩ := c
  rcases h.effect with hexec | ⟨-, hsame⟩
  · by_cases hf : op.kind = .workloadFile
    · cases op with
      | writeWorkload n content =>
        cases hexec
        refine Dir.get?_put_of_ne fun heq => ?_
        subst heq
        simp [filed] at hother
      | write w => cases w <;> cases hf
      | _ => cases hf
    · have hframe := exec_frame (List.mem_singleton_self op.kind) s
      obtain rfl : (s.exec op).2 = s' := congrArg Prod.snd hexec
      exact congrArg (·.get? name) (hframe.workloads (by simpa using Ne.symm hf))
  · rw [hsame]

/-- A row write meets its condition: its workload fits, unless others are about to record for it, and
the other workloads fit as before. -/
theorem recording_fits {β : Type} {op : Op β} {s : State} {n : String} {others last : Bool} (hwf : s.db.WF)
    (hk : op.kind = .revision) (hfile : ∀ m content, op.recorded s = some (m, content) → m = n → last = true →
      s.disk.workloads.get? n = some content)
    (hcond : (match op.recorded s with
      | some (m, _) => m == n && (last || others)
      | none => !(s.db.workloads.rows.any (·.name == n)) || others) = true) :
    ((s.exec op).2.fits n = true ∨ others = true) ∧
      ∀ name, name ≠ n → s.fits name = true → (s.exec op).2.fits name = true := by
  cases hrec : op.recorded s with
  | none =>
    have hsame : ∀ name, s.fits name = true → (s.exec op).2.fits name = true := by
      intro name hfits
      rw [recorded_none hk hrec]
      exact hfits
    rw [hrec] at hcond
    refine ⟨?_, fun name _ => hsame name⟩
    rcases Bool.or_eq_true_iff.1 hcond with hfree | hothers
    · exact .inl (hsame n (fits_of_free hfree))
    · exact .inr hothers
  | some rec =>
    obtain ⟨m, content⟩ := rec
    rw [hrec] at hcond
    obtain ⟨hm, hmine⟩ := Bool.and_eq_true_iff.1 hcond
    obtain rfl : m = n := by simpa using hm
    refine ⟨?_, fun name hne hfits => recorded_fits hwf hrec (fun heq => absurd heq hne) fun _ => hfits⟩
    rcases Bool.or_eq_true_iff.1 hmine with hlast | hothers
    · exact .inl (recorded_fits hwf hrec (fun _ => hfile m content hrec rfl hlast) fun hne => absurd rfl hne)
    · exact .inr hothers

/-- A thread makes a call: what becomes of the workload `name`. -/
theorem fits_call {k : Nat} {fails : Bool} {t : Thread} {c : Exchange Op} {prog : Prog Op Response} {s' : State}
    (h : Filed p) (ht : p.threads[k]? = some t) (hadv : Advanced fails t.prog p.state c prog s')
    (hguard : filesGuarded p (.call k fails) = true) (name : String) :
    s'.fits name = true ∨ dueFor name (p.threads.set k ⟨t.tag, prog⟩) = true := by
  obtain ⟨r, q⟩ := t
  have hkeeps := h.keeping.kept k _ ht
  rw [filing_after, List.nil_append] at hkeeps
  cases q with
  | ret a => cases hadv
  | call op kk =>
    obtain ⟨hallow, hnext⟩ := keeps_call.1 hkeeps
    by_cases hr : op.kind = .revision
    · obtain ⟨n, hn⟩ := filing_name hallow hr
      dsimp only at hn
      unfold filesGuarded at hguard
      dsimp only at hguard
      rw [ht] at hguard
      dsimp only at hguard
      rw [hr, hn, bne_self_eq_false, Bool.false_or, Option.all_some] at hguard
      -- another workload's record is due to another thread
      have hothers : name ≠ n → dueFor name p.threads = true → dueFor name (p.threads.eraseIdx k) = true := by
        intro hne hd
        refine dueFor_others hd ht fun _ hmine => hne ?_
        rw [hn] at hmine
        exact (Option.some.inj hmine).symm
      cases hadv with
      | failed hf =>
        rw [if_pos hf] at hguard
        by_cases hname : name = n
        · subst hname
          exact (Bool.or_eq_true_iff.1 hguard).imp fits_of_free dueFor_set
        · exact (h.fits name).imp_right fun hd => dueFor_set (hothers hname hd)
      | made hno =>
        have hf : ¬ fails = true := by
          intro hf
          have hfault := hno hf
          cases op with
          | write => cases hfault
          | _ => cases hr
        rw [if_neg hf] at hguard
        -- if the thread wrote the file last, it holds what is recorded
        obtain ⟨hmine, hrest⟩ := recording_fits h.wf hr (fun m content hrec hm hlast =>
          h.written k _ ht n content hn (recorded_wrote hallow hrec) (by simpa using hlast)) hguard
        by_cases hname : name = n
        · subst hname
          exact hmine.imp_right dueFor_set
        · exact (h.fits name).imp (hrest name hname) fun hd => dueFor_set (hothers hname hd)
    · -- no record was due, so if one is due for `name` another thread makes it
      have hothers : dueFor name p.threads = true → dueFor name (p.threads.eraseIdx k) = true := by
        intro hd
        refine dueFor_others hd ht fun hmine => ?_
        have hmine : (op.kind == .revision) = true := hmine
        simp [hr] at hmine
      cases hadv with
      | failed => exact (h.fits name).imp_right fun hd => dueFor_set (hothers hd)
      | made =>
        by_cases hf : op.kind = .workloadFile
        · cases op with
          | writeWorkload m c =>
            by_cases hname : name = m
            · -- the file is written, and its record is due
              subst hname
              have hafter := due_eq (r := r) (hnext _ (.inl ⟨p.state, rfl⟩))
              have hdue : (wrote (trace k p.log ++ [⟨.writeWorkload name c, .ok ()⟩])).isSome = true := by
                rw [wrote_snoc]
                rfl
              obtain ⟨hlt, -⟩ := List.getElem?_eq_some_iff.1 ht
              exact .inr (dueFor_iff.2 ⟨_, List.mem_set hlt _, hafter.trans hdue, hallow.2⟩)
            · exact (h.fits name).imp (putFile_fits hname) fun hd => dueFor_set (hothers hd)
          | write w => cases w <;> cases hf
          | _ => cases hf
        · exact (h.fits name).imp (exec_fits hr hf) fun hd => dueFor_set (hothers hd)

/-- A thread that is about to write its row is due. -/
theorem Filed.due_of_wrote (h : Filed p) {k : Nat} {t : Thread} (ht : p.threads[k]? = some t) {name content : String}
    (hfiles : t.tag.files = some name) (hw : wrote (trace k p.log) = some content) : dueFor name p.threads = true := by
  have hkeeps := h.keeping.kept k t ht
  rw [filing_after, List.nil_append] at hkeeps
  refine dueFor_iff.2 ⟨t, List.mem_of_getElem? ht, ?_, hfiles⟩
  rw [show t = ⟨t.tag, t.prog⟩ from rfl, due_eq hkeeps, hw]
  rfl

/-- After a call of thread `k` the last to write a file still finds there what it wrote. -/
theorem Filed.written_call (h : Filed p) {k : Nat} {fails : Bool} (hs : Service.step p (.call k fails) = some p')
    (i : Nat) (u : Thread) (hu : p'.threads[i]? = some u) {name content : String} (hfiles : u.tag.files = some name)
    (hw : wrote (trace i p'.log) = some content) (hlast : filer name p'.log = some i) :
    p'.state.disk.workloads.get? name = some content := by
  obtain ⟨t, c, prog, ht, hadv, hthreads, hlog⟩ := Pool.step_call hs
  have hlt := (List.getElem?_eq_some_iff.1 ht).1
  have hkeeps := h.keeping.kept k t ht
  rw [filing_after, List.nil_append] at hkeeps
  have hallow := (hadv.keeps hkeeps).1
  rw [hthreads] at hu
  rw [hlog] at hw hlast
  rw [filer_snoc] at hlast
  by_cases hik : i = k
  · subst hik
    rw [List.getElem?_set_self hlt] at hu
    cases hu
    rw [show trace i (p.log ++ [⟨c, i, t.tag, p.state⟩]) = trace i p.log ++ [c] from
      trace_snoc_self (e := ⟨c, i, t.tag, p.state⟩), wrote_snoc] at hw
    obtain ⟨⟨n, content'⟩, hfiled, rfl⟩ := Option.map_eq_some_iff.1 hw
    obtain rfl : n = name := Option.some.inj ((filed_name hallow hfiled).symm.trans hfiles)
    exact filed_exec hadv hfiled
  · rw [List.getElem?_set_ne (Ne.symm hik)] at hu
    rw [trace_snoc_other (Ne.symm hik)] at hw
    -- had the call written the file, thread `k` would be the last to do so
    split at hlast
    · cases hlast
      exact absurd rfl hik
    · rename_i hother
      rw [file_kept hadv (by simpa using hother)]
      exact h.written i u hu name content hfiles hw hlast

theorem Filed.job (h : Filed p) {i : Jobs.Input} (hguard : filesGuarded p (.env i) = true) {s : State}
    (hs : Jobs.step i p.state = some s) (name : String) :
    (s.fits name = true ∨ dueFor name p.threads = true) ∧
      (dueFor name p.threads = true → s.disk.workloads.get? name = p.state.disk.workloads.get? name) := by
  obtain ⟨j, t, j', hj, hst, rfl⟩ := Jobs.step_some hs
  have hdir : ∀ {n : String} {id : ID} {type : String} {deleteData : Bool}, j.phase = .removeDir →
      j.fn = .destroy n id type deleteData → i.fault = false →
      (∀ w ∈ p.state.db.workloads, w.name ≠ n) ∧ dueFor n p.threads = false := by
    intro n id type deleteData hp hfn hf
    have hjob : p.state.job =
        some ⟨j.row, .destroy n id type deleteData, .removeDir, j.picked, j.rebuilt, j.result⟩ := by
      rw [hj, ← hp, ← hfn]
    unfold filesGuarded at hguard
    dsimp only at hguard
    rw [hjob] at hguard
    dsimp only at hguard
    rw [hf, Bool.false_or, Bool.and_eq_true, Bool.not_eq_eq_eq_not, Bool.not_true, Bool.not_eq_eq_eq_not,
      Bool.not_true] at hguard
    exact ⟨fun w hw hname => by simpa [hname] using List.any_eq_false.1 hguard.1 w hw, hguard.2⟩
  constructor
  · by_cases hdue : dueFor name p.threads = true
    · exact .inr hdue
    · have hfits : t.fits name = true :=
        job_fits hst (fun hp hfn hf => (hdir hp hfn hf).1) ((h.fits name).resolve_right hdue)
      exact .inl hfits
  · intro hdue
    have hfile : t.disk.workloads.get? name = p.state.disk.workloads.get? name := by
      refine job_file hst fun hp hfn hf => ?_
      rw [(hdir hp hfn hf).2] at hdue
      cases hdue
    exact hfile

theorem exec_advanced_wf {fails : Bool} {q q' : Prog Op Response} {s s' : State} {c : Exchange Op}
    (h : Advanced fails q s c q' s') (hwf : s.db.WF) : s'.db.WF := by
  cases h with
  | made => exact exec_wf hwf
  | failed => exact hwf

theorem Filed.step (h : Filed p) {m : Move} (hguard : filesGuarded p m = true)
    (hs : Service.step p m = some p') : Filed p' := by
  have hkeeping := h.keeping.step (fun r => serve_filing r) hs
  cases m with
  | start r =>
    cases hs
    refine ⟨h.wf, hkeeping, fun name => (h.fits name).imp_right fun hdue => ?_,
      fun k t ht name content hfiles hw => ?_⟩
    · obtain ⟨t, ht, hdue⟩ := dueFor_iff.1 hdue
      exact dueFor_iff.2 ⟨t, List.mem_append_left _ ht, hdue⟩
    · dsimp only at ht hw
      rcases Nat.lt_or_ge k p.threads.length with hlt | hge
      · rw [List.getElem?_append_left hlt] at ht
        exact h.written k t ht name content hfiles hw
      · -- the request that comes in has made no call
        rw [List.getElem?_append_right hge, List.getElem?_singleton] at ht
        split at ht
        · obtain rfl : k = p.threads.length := by omega
          rw [h.keeping.trace_unstarted] at hw
          cases hw
        · cases ht
  | env i =>
    obtain ⟨s, hjob, rfl⟩ := Pool.step_env hs
    obtain ⟨j, t, j', -, hst, rfl⟩ := Jobs.step_some hjob
    refine ⟨hst.wf h.wf, hkeeping, fun name => (h.job hguard hjob name).1,
      fun k t ht name content hfiles hw hlast => ?_⟩
    rw [(h.job hguard hjob name).2 (h.due_of_wrote ht hfiles hw)]
    exact h.written k t ht name content hfiles hw hlast
  | call k fails =>
    obtain ⟨t, c, prog, ht, hadv, hthreads, -⟩ := Pool.step_call hs
    refine ⟨exec_advanced_wf hadv h.wf, hkeeping, fun name => ?_,
      fun i u hu name content => h.written_call hs i u hu⟩
    rw [hthreads]
    exact fits_call h ht hadv hguard name

end Steps

/-! ## Every run -/

/-- Every workload has a workload.nix, with the content of its latest revision. -/
def State.Fits (s : State) : Prop :=
  ∀ w ∈ s.db.workloads, ∃ r, s.db.latest w.id = some r ∧ s.disk.workloads.get? w.name = some r.content

theorem dueFor_returned {p : Pool} (h : p.returned = true) (name : String) : dueFor name p.threads = false := by
  refine List.any_eq_false.2 fun t ht => ?_
  obtain ⟨r, q⟩ := t
  have hret : q.returned = true := List.all_eq_true.1 h _ ht
  cases q with
  | ret a => exact Bool.false_ne_true
  | call op k => cases hret

/-- Once all requests are answered, in every order of the calls of any number of them, of the steps of
jobs and of failures that meets the condition, each file has the content of the latest revision. -/
theorem files_fit {h : Host} {ms : List Move} {p : Pool}
    (hguard : Runs.Along Service.step (fun p m => filesGuarded p m = true) (Service.fresh h) ms)
    (hrun : Service.run (Service.fresh h) ms = some p) (hdone : p.returned = true) : p.state.Fits := by
  have hfresh : Filed (Service.fresh h) := ⟨Db.wf_empty, Pool.keeping_fresh _, fun _ => .inl rfl, nofun⟩
  have hfiled := Runs.exec_inv (I := Filed) (fun p m p' hp hI hs => hI.step hp hs) hguard hfresh hrun
  intro w hw
  have hfits := (hfiled.fits w.name).resolve_right (by rw [dueFor_returned hdone]; exact Bool.false_ne_true)
  exact fits_iff.1 hfits w hw rfl

/-- A save of the workload `web`. -/
def saveWeb (content : String) : Request := .workloadSave "web" content [] []

/-- Two saves of one workload: the second comes between the file and the row of the first. -/
def overlappingSaves : List Move :=
  [.start (.workloadCreate ⟨"web", "", "nixos-container", "blank", false⟩)] ++ calls 0 4 ++
    [.start (saveWeb "{ a = 1; }"), .start (saveWeb "{ b = 2; }")] ++ calls 1 2 ++ calls 2 4 ++ calls 1 2

/-- Both have been answered. -/
def savesOver : Pool := (Service.run (Service.fresh exampleHost) overlappingSaves).get (by decide +kernel)

/-- Then the file has what the second wrote, and the latest revision is the first's. -/
theorem files_do_not_fit : ¬ ∀ (h : Host) (ms : List Move) (p : Pool), Service.run (Service.fresh h) ms = some p →
    p.returned = true → p.state.inFlight = false → p.state.Fits := by
  intro hall
  have hfits := hall exampleHost overlappingSaves savesOver (Option.some_get _).symm
    (by decide +kernel) (by decide +kernel)
  have hweb : savesOver.state.fits "web" = true := by
    refine fits_iff.2 fun w hw hname => ?_
    rw [← hname]
    exact hfits w hw
  exact absurd hweb (by decide +kernel)

/-- The same saves, the second after the first. -/
def savesInTurn : List Move :=
  [.start (.workloadCreate ⟨"web", "", "nixos-container", "blank", false⟩)] ++ calls 0 4 ++
    [.start (saveWeb "{ a = 1; }"), .start (saveWeb "{ b = 2; }")] ++ calls 2 1 ++ calls 1 4 ++ calls 2 3

theorem files_fit_savesInTurn :
    ((Service.run (Service.fresh exampleHost) savesInTurn).get (by decide +kernel)).state.Fits :=
  files_fit (by decide +kernel) (Option.some_get _).symm (by decide +kernel)

end Nixbox
