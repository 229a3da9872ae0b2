/-
The order of the calls by which a request changes a workload.nix: the workload is looked up, the file is
written under the name of the path or form, and at once after it the row, with the content of the file.
-/
import Nixbox.Lib.Threads
import Nixbox.Server.Footprint

namespace Nixbox.Server

open Effect Prog Store
open Nix hiding FlakeInput

/-! ## Definitions -/

/-- The workload whose workload.nix a request writes. -/
def Request.files : Request → Option String
  | .workloadCreate form => some (Go.trimSpace form.name)
  | .workloadSave name .. | .workloadRestore name _ => some name
  | _ => none

/-- The workload.nix a call has written, and its content. -/
def filed {β : Type} (op : Op β) (b : β) : Option (String × String) :=
  match op, b with
  | .writeWorkload name content, .ok _ => some (name, content)
  | _, _ => none

/-- The content of the workload.nix that was just written. -/
def wrote (l : List (Exchange Op)) : Option String := l.getLast?.bind fun c => (filed c.op c.answer).map Prod.snd

/-- A revision has been recorded, or should have been. -/
def revised (l : List (Exchange Op)) : Bool := l.any fun c => c.op.kind == .revision

/-- The workload `name` is looked up. -/
def lookedUp (name : String) (r : Except Err Workload) : Exchange Op := ⟨.query fun db => db.workloadByName name, r⟩

/-- A workload.nix is written under the one name; then a revision is recorded of the same content, of the
workload that was found under the name or as the first of one that was not: no other call comes between, and
none is recorded otherwise. -/
def filing (name : Option String) : Discipline Op (List (Exchange Op)) where
  allows l op := match op with
    | .writeWorkload n _ => wrote l = none ∧ name = some n
    | .write (.saveRevision id content _ _) =>
      wrote l = some content ∧ revised l = false ∧ ∃ n w, name = some n ∧ lookedUp n (.ok w) ∈ l ∧ w.id = id
    | .write (.createWorkload n _ _ content _) =>
      wrote l = some content ∧ revised l = false ∧ name = some n ∧ lookedUp n (.error .notFound) ∈ l
    | _ => wrote l = none
  next l op b := l ++ [⟨op, b⟩]

section Rules

variable {α β : Type} {name : Option String} {ks : List Kind} {l more : List (Exchange Op)} {c : Exchange Op}
  {I : List (Exchange Op) → Prop}

theorem filing_after (name : Option String) (l more : List (Exchange Op)) : (filing name).after l more = l ++ more :=
  Discipline.after_trace (fun _ _ _ => rfl) l more

@[simp] theorem wrote_snoc : wrote (l ++ [c]) = (filed c.op c.answer).map Prod.snd := by
  unfold wrote
  rw [List.getLast?_concat, Option.bind_some]

@[simp] theorem revised_snoc : revised (l ++ [c]) = (revised l || c.op.kind == .revision) := by simp [revised]

theorem filed_none {op : Op β} (hf : op.kind ≠ .workloadFile) (b : β) : filed op b = none := by
  cases op with
  | writeWorkload => exact absurd rfl hf
  | _ => rfl

/-- A call that neither writes a workload.nix nor records a revision is allowed where no record is due. -/
theorem filing_idle {op : Op β} (hr : op.kind ≠ .revision) (hf : op.kind ≠ .workloadFile) :
    (filing name).allows l op ↔ wrote l = none := by
  cases op with
  | writeWorkload => exact absurd rfl hf
  | write w =>
    cases w with
    | createWorkload | saveRevision => exact absurd rfl hr
    | _ => exact Iff.rfl
  | _ => exact Iff.rfl

/-- A record is made exactly where one is due. -/
theorem filing_due {op : Op β} (h : (filing name).allows l op) : (op.kind == .revision) = (wrote l).isSome := by
  by_cases hf : op.kind = .workloadFile
  · cases op with
    | writeWorkload n content =>
      rw [h.1]
      rfl
    | write w => cases w <;> cases hf
    | _ => cases hf
  by_cases hr : op.kind = .revision
  · cases op with
    | write w =>
      cases w with
      | createWorkload | saveRevision =>
        rw [h.1]
        rfl
      | _ => cases hr
    | _ => cases hr
  · rw [(filing_idle hr hf).1 h]
    simpa using hr

/-- A workload.nix is written under the name of the request. -/
theorem filed_name {op : Op β} {b : β} {n content : String} (h : (filing name).allows l op)
    (hfiled : filed op b = some (n, content)) : name = some n := by
  cases op with
  | writeWorkload =>
    cases b with
    | ok _ =>
      cases hfiled
      exact h.2
    | error _ => cases hfiled
  | _ => cases hfiled

/-- A record is made under the name of the request. -/
theorem filing_name {op : Op β} (h : (filing name).allows l op) (hr : op.kind = .revision) : ∃ n, name = some n := by
  cases op with
  | write w =>
    cases w with
    | createWorkload =>
      obtain ⟨-, -, hname, -⟩ := h
      exact ⟨_, hname⟩
    | saveRevision =>
      obtain ⟨-, -, n, w, hname, -⟩ := h
      exact ⟨n, hname⟩
    | _ => cases hr
  | _ => cases hr

/-! What is known of the calls so far: `I` holds, which only a record may spoil, and no record is due. -/

/-- Programs that write no workload.nix and record no revision. -/
theorem Within.filing (hI : ∀ l c, c.op.kind ≠ .revision → I l → I (l ++ [c]))
    {p : Prog Op α} (h : Within ks p)
    (hr : .revision ∉ ks) (hf : .workloadFile ∉ ks) (hl : wrote l = none ∧ I l) :
    p.Keeps (filing name) (fun _ l => wrote l = none ∧ I l) l := by
  refine Uses.keeps_inv h (fun β op q hop hq => ?_) hl
  have hrev : op.kind ≠ .revision := by
    rintro heq
    exact hr (heq ▸ hop)
  have hfile : op.kind ≠ .workloadFile := by
    rintro heq
    exact hf (heq ▸ hop)
  refine ⟨(filing_idle hrev hfile).2 hq.1, fun b => ⟨?_, hI _ _ hrev hq.2⟩⟩
  show wrote (q ++ [⟨op, b⟩]) = none
  rw [wrote_snoc, filed_none hfile]
  rfl

/-- A program that reads, then one that goes on from its result. -/
theorem reads_filing {ε γ : Type} (hI : ∀ l c, c.op.kind ≠ .revision → I l → I (l ++ [c]))
    {x : ExceptT ε (Prog Op) α} {f : α → ExceptT ε (Prog Op) γ} (hx : Within [.read] x.run)
    (hl : wrote l = none ∧ I l)
    (hf : ∀ a l, wrote l = none ∧ I l → Keeps (filing name) (fun _ l => wrote l = none) l (f a).run) :
    Keeps (filing name) (fun _ l => wrote l = none) l (x >>= f).run := by
  refine Keeps.seqE (P := fun _ l => wrote l = none ∧ I l) ?_ hf
  refine (Within.filing hI hx (by decide) (by decide) hl).mono fun r l h => ?_
  cases r with
  | ok _ => exact h
  | error _ => exact h.1

/-- The file, and at once after it a record of its content. -/
theorem file_filing {n content : String} {x : Call α} {f : α → Handler Response}
    (hI : ∀ l c, c.op.kind ≠ .revision → I l → I (l ++ [c])) (hl : wrote l = none ∧ I l)
    (hx : ∀ l, wrote l = some content → I l → Keeps (filing (some n)) (fun _ l => wrote l = none) l x.run)
    (hf : ∀ a l, wrote l = none → Keeps (filing (some n)) (fun _ l => wrote l = none) l (f a).run) :
    Keeps (filing (some n)) (fun _ l => wrote l = none) l (do
      orError (writeWorkload n content)
      let a ← orError x
      f a : Handler Response).run := by
  refine Keeps.seqE (P := fun _ l => wrote l = some content ∧ I l) ?_ fun _ l h => ?_
  · refine keeps_adapt.2 ?_
    unfold writeWorkload checked
    split
    · exact keeps_throw.2 hl.1
    · refine keeps_perform ⟨hl.1, rfl⟩ fun r _ => ?_
      cases r with
      | ok _ => exact ⟨wrote_snoc, hI _ _ nofun hl.2⟩
      | error _ => exact wrote_snoc
  · refine Keeps.seqE (P := fun _ l => wrote l = none) (keeps_adapt.2 ((hx l h.1 h.2).mono fun r l hr => ?_)) hf
    cases r with
    | ok _ => exact hr
    | error _ => exact hr

/-- The lookup is among the calls so far, and no revision has been recorded. -/
def Sought (n : String) (r : Except Err Workload) (l : List (Exchange Op)) : Prop :=
  lookedUp n r ∈ l ∧ revised l = false

theorem Sought.snoc {n : String} {r : Except Err Workload} (l : List (Exchange Op)) (c : Exchange Op)
    (hc : c.op.kind ≠ .revision) (h : Sought n r l) : Sought n r (l ++ [c]) := by
  refine ⟨List.mem_append_left _ h.1, ?_⟩
  rw [revised_snoc, h.2]
  simpa using hc

/-- The lookup itself, whatever it answers. -/
theorem workloadByName_filing (n : String) (hl : wrote l = none) (hr : revised l = false) :
    Keeps (filing name) (fun r l => wrote l = none ∧ Sought n r l ∧ ∀ w, r = .ok w → w.name = n) l
      (Store.workloadByName n).run := by
  refine keeps_perform hl fun r hanswer => ⟨wrote_snoc, ⟨List.mem_append_right _ (.head _), ?_⟩, fun w hw => ?_⟩
  · show revised (l ++ [_]) = false
    rw [revised_snoc, hr]
    rfl
  · rcases hanswer with ⟨s, hs⟩ | hs
    · rw [hw] at hs
      exact (workloadByName_ok hs).2
    · cases hs
      cases hw

/-- A handler of the workload's own page, which writes under the name of the path. -/
theorem onWorkload_filing {n : String} {f : Workload → Handler Response} (hl : wrote l = none)
    (hr : revised l = false)
    (hf : ∀ w l, w.name = n → wrote l = none ∧ Sought n (.ok w) l →
      Keeps (filing name) (fun _ l => wrote l = none) l (f w).run) :
    Keeps (filing name) (fun _ l => wrote l = none) l (do
      let w ← lookupWorkload n
      f w : Handler Response).run := by
  refine Keeps.seqE (P := fun w l => w.name = n ∧ wrote l = none ∧ Sought n (.ok w) l) ?_ fun w l h =>
    hf w l h.1 h.2
  unfold lookupWorkload lookupBy
  split
  · exact keeps_throw.2 hl
  · refine Keeps.seqE (P := fun r l => wrote l = none ∧ Sought n r l ∧ ∀ w, r = .ok w → w.name = n)
      (keeps_lift.2 (workloadByName_filing n hl hr)) fun r l h => ?_
    match r, h with
    | .error .notFound, h => exact keeps_throw.2 h.1
    | .error .failed, h => exact keeps_throw.2 h.1
    | .ok w, h => exact keeps_return.2 ⟨h.2.2 w rfl, h.1, h.2.1⟩

/-- The record of a new revision of the workload that was found. -/
theorem saveRevision_filing {n content ports note : String} {w : Workload} (hl : wrote l = some content)
    (h : Sought n (.ok w) l) :
    Keeps (filing (some n)) (fun _ l => wrote l = none) l (Store.saveRevision w.id content ports note).run :=
  keeps_perform ⟨hl, h.2, n, w, rfl, h.1, rfl⟩ fun _ _ => wrote_snoc

end Rules

/-! ## The handlers -/

theorem handleWorkloadSave_filing (n content : String) (ports protos : List String) :
    Keeps (filing (some n)) (fun _ l => wrote l = none) [] (handleWorkloadSave n content ports protos).run := by
  refine onWorkload_filing rfl rfl fun w l hname h => ?_
  subst hname
  dsimp only
  split
  · exact keeps_return.2 h.1
  · refine file_filing Sought.snoc h (fun l hl h => saveRevision_filing hl h) fun rid l hl => ?_
    refine reads_filing (I := fun _ => True) (fun _ _ _ h => h)
      (within_lift (uses_perform (by simp [Op.kind]))) ⟨hl, trivial⟩
      fun r l h => ?_
    split
    · exact keeps_return.2 h.1
    · exact keeps_return.2 h.1

theorem handleWorkloadRestore_filing (n id : String) :
    Keeps (filing (some n)) (fun _ l => wrote l = none) [] (handleWorkloadRestore n id).run := by
  refine onWorkload_filing rfl rfl fun w l hname h => ?_
  subst hname
  split
  · exact keeps_throw.2 h.1
  · refine reads_filing Sought.snoc (orError_within (within_query (by decide))) h fun revs l h => ?_
    split
    · exact keeps_throw.2 h.1
    · exact file_filing Sought.snoc h (fun l hl h => saveRevision_filing hl h) fun rid l hl => keeps_return.2 hl

theorem handleWorkloadCreate_filing (form : WorkloadForm) :
    Keeps (filing (some (Go.trimSpace form.name))) (fun _ l => wrote l = none) [] (handleWorkloadCreate form).run := by
  unfold handleWorkloadCreate
  dsimp only
  split
  · exact keeps_return.2 rfl
  · refine Keeps.seqE (P := fun r l => wrote l = none ∧ Sought (Go.trimSpace form.name) r l)
      (keeps_lift.2 ((workloadByName_filing _ rfl rfl).mono fun r l h => ⟨h.1, h.2.1⟩)) fun r l h => ?_
    split
    · exact keeps_return.2 h.1
    · exact keeps_throw.2 h.1
    · refine file_filing Sought.snoc h (fun l hl h => ?_) fun _ l hl => keeps_return.2 hl
      refine Keeps.seqE (P := fun _ l => wrote l = none)
        (keeps_perform ⟨hl, h.2, rfl, h.1⟩ fun r _ => ?_) fun id l hl => ?_
      · cases r with
        | ok _ => exact wrote_snoc
        | error _ => exact wrote_snoc
      · have hread : Within [.read] (Store.workloadByID id).run := within_query (List.mem_singleton_self _)
        exact (Within.filing (I := fun _ => True) (fun _ _ _ h => h) hread (by decide) (by decide)
          ⟨hl, trivial⟩).mono fun _ _ h => h.1

/-- Every request keeps to the order. -/
theorem serve_filing (r : Request) : (serve r).Keeps (filing r.files) (fun _ l => wrote l = none) [] := by
  have hanswer : ∀ {name : Option String} {h : Handler Response},
      Keeps (filing name) (fun _ l => wrote l = none) [] h.run →
        Keeps (filing name) (fun _ l => wrote l = none) [] h.answer := by
    intro name h hh
    refine keeps_bind.2 (hh.mono fun r l hl => ?_)
    cases r with
    | ok _ => exact keeps_ret.2 hl
    | error _ => exact keeps_ret.2 hl
  cases r with
  | workloadCreate form => exact hanswer (handleWorkloadCreate_filing form)
  | workloadSave name content ports protos => exact hanswer (handleWorkloadSave_filing name content ports protos)
  | workloadRestore name id => exact hanswer (handleWorkloadRestore_filing name id)
  | _ =>
    refine (Within.filing (I := fun _ => True) (fun _ _ _ h => h) (serve_within _) ?_ ?_ ⟨rfl,
      trivial⟩).mono fun _ _ h => h.1
    all_goals simp

end Nixbox.Server
