/-
How the requests end that write a workload.nix: a save, a restore, a create. Each writes the file
and then the row; in between, a failing statement leaves the file ahead of the history.
-/
import Nixbox.Server.Launch

namespace Nixbox

open Effect Prog Store Directory Server
open Nix hiding FlakeInput

/-! ## Definitions -/

/-- The calls that only read. -/
def Op.reads {β : Type} (op : Op β) : Bool := op.kind == .read

/-- The state with the workload.nix of `name` written. -/
def State.putFile (s : State) (name content : String) : State :=
  { s with disk.workloads := s.disk.workloads.put name content }

section Definitions

variable (F : ∀ β : Type, Op β → Bool) (s : State)

/-- Where saving a revision of `w` can stop when only the calls of `F` may fail. -/
inductive Saved (w : Workload) : State → Prop
  | nothing : Saved w s
  | fileOnly {content ports note : String}
    (h : F _ (.write (.saveRevision w.id content ports note)) = true) : Saved w (s.putFile w.name content)
  | saved {content ports note : String} {rid : ID} {db : Db}
    (h : s.db.saveRevision w.id content ports note (s.host.clock s.ticks) = .ok (rid, db)) :
    Saved w { s.putFile w.name content with db := db, ticks := s.ticks + 1 }

/-- Where creating a workload can stop. -/
inductive Created : State → Prop
  | nothing : Created s
  | fileOnly {name content : String} (hfree : ∀ w ∈ s.db.workloads, w.name ≠ name) :
    Created (s.putFile name content)
  | created {name displayName typ content ports : String} {id : ID} {db : Db}
    (hfree : ∀ w ∈ s.db.workloads, w.name ≠ name) (htype : (lookup typ).isSome)
    (h : s.db.createWorkload name displayName typ content ports (s.host.clock s.ticks) = .ok (id, db)) :
    Created { s.putFile name content with db := db, ticks := s.ticks + 1 }

end Definitions

/-- A statement that succeeds. -/
theorem State.write_ok {α : Type} {s : State} {w : Write α} {a : α × Db}
    (h : w.run (s.host.clock s.ticks) s.db = .ok a) :
    s.write w = (.ok a.1, { s with db := a.2, ticks := s.ticks + 1 }) := by
  unfold State.write
  rw [h]

namespace Server

variable {F : ∀ β : Type, Op β → Bool} {s : State}

/-! ## Save and restore -/

theorem writeWorkload_ends {name content : String} {Q : Except Err Unit → State → Prop}
    (hok : Q (.ok ()) (s.putFile name content)) (hfail : ∀ e, Q (.error e) s) :
    EndsIf F Q (writeWorkload name content).run s := by
  unfold writeWorkload checked
  split
  · exact ends_throw.2 (hfail _)
  · refine endsIf_call.2 ⟨hok, fun _ r hr => ?_⟩
    cases hr
    exact hfail _

/-- The file, then the revision, then whatever follows. -/
theorem saveFile_ends {w : Workload} (hw : w ∈ s.db.workloads) {content ports note : String}
    {k : ID → Handler Response} (hk : ∀ rid s', Saved F s w s' → EndsIf F (fun _ => Saved F s w) (k rid).run s') :
    EndsIf F (fun _ => Saved F s w) (do
      orError (writeWorkload w.name content)
      let rid ← orError (saveRevision w.id content ports note)
      k rid : Handler Response).run s := by
  refine ends_exceptT_bind.2 (ends_orError.2 (writeWorkload_ends ?_ fun e => .nothing))
  have hfind : s.db.workloads.find? w.id = some w := Keyed.Table.find?_mem hw
  obtain ⟨a, hrun⟩ : ∃ a, s.db.saveRevision w.id content ports note (s.host.clock s.ticks) = .ok a := by
    unfold Db.saveRevision
    rw [hfind]
    exact ⟨_, rfl⟩
  refine ends_exceptT_bind.2 (ends_orError.2 (endsIf_write.2 ⟨?_, fun hF => .fileOnly hF⟩))
  rw [State.write_ok (s := s.putFile w.name content) (w := .saveRevision w.id content ports note) hrun]
  exact hk _ _ (.saved hrun)

theorem save_ends (name content : String) (ports protos : List String) :
    EndsIf F (fun _ s' => s' = s ∨ ∃ w ∈ s.db.workloads, Saved F s w s')
      (serve (.workloadSave name content ports protos)) s := by
  refine ends_answer.2 ((reads_lookupWorkload name).bind (fun w hw => ?_) fun e => .inl rfl)
  dsimp only
  split
  · exact ends_return.2 (.inl rfl)
  refine EndsIf.mono (saveFile_ends hw.2.1 fun rid s' hs' => ?_) fun r s' hs' => ?_
  · refine ends_exceptT_bind.2 (ends_lift.2 (endsIf_perform.2 ⟨?_, fun _ => nofun⟩))
    dsimp only
    split
    · exact ends_return.2 hs'
    · exact ends_return.2 hs'
  · cases r with
    | ok a => exact .inr ⟨w, hw.2.1, hs'⟩
    | error a => exact .inr ⟨w, hw.2.1, hs'⟩

theorem restore_ends (name id : String) :
    EndsIf F (fun _ s' => s' = s ∨ ∃ w ∈ s.db.workloads, Saved F s w s')
    (serve (.workloadRestore name id)) s := by
  refine ends_answer.2 ((reads_lookupWorkload name).bind (fun w hw => ?_) fun e => .inl rfl)
  split
  · exact ends_throw.2 (.inl rfl)
  refine ends_exceptT_bind.2 (ends_orError.2 (endsIf_query ?_ (.inl rfl)))
  dsimp only [Except.mapError]
  split
  · exact ends_throw.2 (.inl rfl)
  refine EndsIf.mono (saveFile_ends hw.2.1 fun rid s' hs' => ends_return.2 hs') fun r s' hs' => ?_
  cases r with
  | ok a => exact .inr ⟨w, hw.2.1, hs'⟩
  | error a => exact .inr ⟨w, hw.2.1, hs'⟩

/-! ## Create -/

/-- The form's type is a registered one, under its own id. -/
theorem checkCreate_type {name displayName typ template : String} {wt : WorkloadType} {tmpl : Template}
    (h : checkCreate name displayName typ template = .ok (wt, tmpl)) : lookup wt.id = some wt := by
  unfold checkCreate at h
  cases hl : lookup typ with
  | none =>
    rw [hl] at h
    cases h
  | some wt' =>
    rw [hl] at h
    cases hn : wt'.validateName name with
    | error m =>
      simp only [hn] at h
      cases h
    | ok _ =>
      cases hd : validateDisplayName displayName with
      | error m =>
        simp only [hn, hd] at h
        cases h
      | ok _ =>
        simp only [hn, hd] at h
        cases ht : wt'.templateByID template with
        | none =>
          simp only [ht] at h
          cases h
        | some tmpl' =>
          simp only [ht] at h
          cases h
          rw [(lookup_mem hl).2, hl]

theorem create_ends (form : WorkloadForm) : EndsIf F (fun _ => Created s) (serve (.workloadCreate form)) s := by
  refine ends_answer.2 ?_
  show EndsIf F _ (handleWorkloadCreate form).run s
  unfold handleWorkloadCreate
  dsimp only
  split
  · exact ends_return.2 .nothing
  rename_i wt tmpl hcheck
  refine ends_exceptT_bind.2 (ends_attempt.2 (endsIf_query ?_ (ends_throw.2 .nothing)))
  cases hname : s.db.workloadByName (Go.trimSpace form.name) with
  | ok w => exact ends_return.2 .nothing
  | error e =>
    have hfree := Db.workloadByName_error hname
    cases e with
    | failed => exact ends_throw.2 .nothing
    | notFound =>
      refine ends_exceptT_bind.2 (ends_orError.2 (writeWorkload_ends ?_ fun e => .nothing))
      refine ends_exceptT_bind.2
        (ends_orError.2 (ends_exceptT_bind.2 (endsIf_write.2 ⟨?_, fun _ => .fileOnly hfree⟩)))
      have htype : (lookup wt.id).isSome := by rw [checkCreate_type hcheck]; rfl
      -- the name was free, so the insert goes through
      obtain ⟨a, hrun⟩ : ∃ a, s.db.createWorkload (Go.trimSpace form.name) (Go.trimSpace form.displayName) wt.id
          tmpl.content (formatHostPorts tmpl.ports) (s.host.clock s.ticks) = .ok a := by
        unfold Db.createWorkload
        rw [hname]
        exact ⟨_, rfl⟩
      have hmade := Created.created hfree htype hrun
      rw [State.write_ok (s := s.putFile (Go.trimSpace form.name) tmpl.content)
        (w := .createWorkload (Go.trimSpace form.name)
          (Go.trimSpace form.displayName) wt.id tmpl.content (formatHostPorts tmpl.ports)) hrun]
      refine endsIf_query ?_ hmade
      dsimp only
      split
      · exact ends_return.2 hmade
      · exact hmade

end Server

end Nixbox
