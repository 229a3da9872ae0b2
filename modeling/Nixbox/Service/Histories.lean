/-
What no request takes away: workloads stay, under their ids and names, and their histories only
grow; and a workload.nix changes only with the history of its workload.
-/
import Nixbox.Server.Saves
import Nixbox.Service.Frames

namespace Nixbox

open Effect Prog Store Server Keyed Directory
open Nix hiding FlakeInput

/-! ## Definitions -/

/-- Every workload of `a` is in `b`, its history there a continuation. -/
structure Grown (a b : Db) : Prop where
  kept : ∀ w ∈ a.workloads, ∃ x ∈ b.workloads, x.id = w.id ∧ x.name = w.name ∧ x.type = w.type
  history : ∀ w ∈ a.workloads, a.history w.id <+: b.history w.id

/-- The applied revisions of `b` are those of `a`; a workload not in `a` has none. -/
def AppliedKept (a b : Db) : Prop :=
  ∀ x ∈ b.workloads, x.appliedRevisionID = (a.workloads.find? x.id).bind (·.appliedRevisionID)

/-- Where the history of a workload is the same, so is its workload.nix. -/
def FilesKept (s s' : State) : Prop :=
  ∀ w ∈ s.db.workloads, s'.db.history w.id = s.db.history w.id →
    s'.disk.workloads.get? w.name = s.disk.workloads.get? w.name

/-! ## They compose -/

theorem Grown.refl (a : Db) : Grown a a := ⟨fun w hw => ⟨w, hw, rfl, rfl, rfl⟩, fun _ _ => List.prefix_rfl⟩

theorem Grown.trans {a b c : Db} (hab : Grown a b) (hbc : Grown b c) : Grown a c where
  kept w hw := by
    obtain ⟨x, hx, hid, hname, htype⟩ := hab.kept w hw
    obtain ⟨y, hy, hid', hname', htype'⟩ := hbc.kept x hx
    exact ⟨y, hy, hid'.trans hid, hname'.trans hname, htype'.trans htype⟩
  history w hw := by
    obtain ⟨x, hx, hid, -⟩ := hab.kept w hw
    have hx' := hbc.history x hx
    rw [hid] at hx'
    exact (hab.history w hw).trans hx'

theorem AppliedKept.refl (a : Db) : AppliedKept a a := by
  intro x hx
  rw [show a.workloads.find? x.id = some x from Table.find?_mem hx]
  rfl

theorem AppliedKept.trans {a b c : Db} (hg : Grown a b) (hab : AppliedKept a b) (hbc : AppliedKept b c) :
    AppliedKept a c := by
  intro x hx
  rw [hbc x hx]
  cases hb : b.workloads.find? x.id with
  | some y =>
    obtain ⟨hy, hid⟩ := Table.find?_eq_some.1 hb
    have hya := hab y hy
    rw [show y.id = x.id from hid] at hya
    exact hya
  | none =>
    -- a workload that is not in `b` is not in `a` either
    have ha : a.workloads.find? x.id = none := by
      refine Table.find?_eq_none.2 fun w hw hid => ?_
      obtain ⟨y, hy, hyid, -⟩ := hg.kept w hw
      exact Table.find?_eq_none.1 hb y hy (hyid.trans hid)
    rw [ha]

theorem FilesKept.refl (s : State) : FilesKept s s := fun _ _ _ => rfl

theorem FilesKept.trans {a b c : State} (hg : Grown a.db b.db) (hg' : Grown b.db c.db) (hab : FilesKept a b)
    (hbc : FilesKept b c) : FilesKept a c := by
  intro w hw hhist
  obtain ⟨x, hx, hid, hname, -⟩ := hg.kept w hw
  have hb := hg.history w hw
  have hc := hg'.history x hx
  rw [hid] at hc
  -- between equal ends nothing was saved
  have hmid : b.db.history w.id = a.db.history w.id := by
    refine hb.eq_of_length (Nat.le_antisymm hb.length_le ?_) |>.symm
    rw [← hhist]
    exact hc.length_le
  rw [← hname, hbc x hx (by rw [hid, hhist, hmid]), hname, hab w hw hmid]

/-! ## Every statement -/

section Statements

variable {db db' : Db} {id : ID} {now : Time}

theorem grown_of_eq (hw : db'.workloads = db.workloads) (hr : db'.revisions = db.revisions) :
    Grown db db' ∧ AppliedKept db db' := by
  refine ⟨⟨fun w h => ⟨w, hw ▸ h, rfl, rfl, rfl⟩, fun w _ => ?_⟩, fun x hx => ?_⟩
  · exact ⟨[], by rw [List.append_nil, Db.history_congr hr]⟩
  · rw [hw] at hx
    exact AppliedKept.refl db x hx

/-- Rewriting a workload but not its name, type or applied revision. -/
theorem grown_modify {f : Workload → Workload} (hf : ∀ w, rowid (f w) = rowid w)
    (hsame : ∀ w, (f w).name = w.name ∧ (f w).type = w.type ∧ (f w).appliedRevisionID = w.appliedRevisionID) :
    Grown db { db with workloads := db.workloads.modify id f hf } ∧
      AppliedKept db { db with workloads := db.workloads.modify id f hf } := by
  have hmem : ∀ x, x ∈ db.workloads.modify id f hf ↔
      (x ∈ db.workloads ∧ rowid x ≠ id) ∨ ∃ w ∈ db.workloads, rowid w = id ∧ f w = x :=
    fun _ => Table.mem_modify
  refine ⟨⟨fun w hw => ?_, fun w _ => List.prefix_rfl⟩, fun x hx => ?_⟩
  · by_cases hid : w.id = id
    · exact ⟨f w, (hmem _).2 (.inr ⟨w, hw, hid, rfl⟩), hf w, (hsame w).1, (hsame w).2.1⟩
    · exact ⟨w, (hmem _).2 (.inl ⟨hw, hid⟩), rfl, rfl, rfl⟩
  · rcases (hmem x).1 hx with ⟨hx, -⟩ | ⟨w, hw, -, rfl⟩
    · exact AppliedKept.refl db x hx
    · rw [(hsame w).2.2, show (f w).id = w.id from hf w]
      exact AppliedKept.refl db w hw

theorem saveRevision_grown {content ports note : String} {rid : ID}
    (h : db.saveRevision id content ports note now = .ok (rid, db')) : Grown db db' ∧ AppliedKept db db' := by
  have hhist := Db.saveRevision_history h
  obtain ⟨-, rfl, rfl⟩ := Db.saveRevision_ok h
  have htouched : Grown db (db.touchWorkload id now) ∧ AppliedKept db (db.touchWorkload id now) :=
    grown_modify _ fun _ => ⟨rfl, rfl, rfl⟩
  refine ⟨⟨htouched.1.kept, fun w _ => ?_⟩, htouched.2⟩
  rw [hhist]
  exact List.prefix_append ..

theorem createWorkload_grown {name displayName typ content ports : String} {a : ID}
    (h : db.createWorkload name displayName typ content ports now = .ok (a, db')) :
    Grown db db' ∧ AppliedKept db db' := by
  obtain ⟨-, rfl, rfl⟩ := Db.createWorkload_ok h
  refine ⟨⟨fun w hw => ⟨w, Table.mem_insert.2 (.inl hw), rfl, rfl, rfl⟩, fun w _ => ?_⟩, fun x hx => ?_⟩
  · exact ⟨_, (Db.history_insert (fun _ => rfl) w.id).symm⟩
  · rcases Table.mem_insert.1 hx with hx | rfl
    · exact AppliedKept.refl db x hx
    · have hnew : db.workloads.find? db.workloads.nextId = none :=
        Table.find?_eq_none.2 fun w hw => Int.ne_of_lt (Table.rowid_lt_nextId hw)
      dsimp only
      rw [hnew]
      rfl

end Statements

theorem Write.run_grown {α : Type} {w : Write α} {now : Time} {db db' : Db} {a : α}
    (h : w.run now db = .ok (a, db')) : Grown db db' ∧ AppliedKept db db' := by
  have hrows := Write.run_frame h
  cases w with
  | createWorkload => exact createWorkload_grown h
  | saveRevision => exact saveRevision_grown h
  | setWorkloadEnabled | setWorkloadDisplayName =>
    cases h
    exact grown_modify _ fun _ => ⟨rfl, rfl, rfl⟩
  | _ => exact grown_of_eq (hrows.workloads nofun nofun) (hrows.revisions nofun)

/-! ## Every request -/

theorem exec_grown {β : Type} (op : Op β) (s : State) :
    Grown s.db (s.exec op).2.db ∧ AppliedKept s.db (s.exec op).2.db := by
  rcases exec_rows op s with hdb | ⟨α, w, a, -, hrun⟩
  · rw [hdb]
    exact ⟨.refl _, .refl _⟩
  · exact Write.run_grown hrun

/-- No request deletes a workload, shortens a history, or marks a revision applied. -/
theorem State.handle_grown (s : State) (r : Request) (faults : List Bool) :
    Grown s.db (s.handle r faults).db ∧ AppliedKept s.db (s.handle r faults).db := by
  refine (ends_of_calls (I := fun t : State => Grown s.db t.db ∧ AppliedKept s.db t.db) (fun _ op t ht => ?_)
    (serve r) ⟨.refl _, .refl _⟩).runWith faults
  obtain ⟨hg, ha⟩ := exec_grown op t
  exact ⟨ht.1.trans hg, .trans ht.1 ht.2 ha⟩

/-! ## Files and histories -/

theorem filesKept_of_eq {s s' : State} (h : s'.disk.workloads = s.disk.workloads) : FilesKept s s' := by
  intro w _ _
  rw [h]

theorem Saved.filesKept {s s' : State} {w : Workload} (hwf : s.db.WF) (hw : w ∈ s.db.workloads)
    (h : Saved (fun _ op => op.reads) s w s') : FilesKept s s' := by
  cases h with
  | nothing => exact .refl s
  | fileOnly h => cases h
  | saved h =>
    intro x hx hhist
    have hne : x.name ≠ w.name := by
      intro hname
      rw [hwf.workloadNames x hx w hw hname, Db.saveRevision_history h, if_pos rfl] at hhist
      simp at hhist
    exact Dir.get?_put_of_ne hne

theorem Created.filesKept {s s' : State} (h : Created s s') : FilesKept s s' := by
  cases h with
  | nothing => exact .refl s
  | fileOnly hfree | created hfree =>
    intro x hx _
    exact Dir.get?_put_of_ne (hfree x hx)

/-- A request none of whose writes fails keeps each workload.nix with the history of its workload. -/
theorem State.handle_filesKept {s : State} {r : Request} {faults : List Bool} (hwf : s.db.WF)
    (hfs : (serve r).failsOnly (fun _ op => op.reads) faults s = true) : FilesKept s (s.handle r faults) := by
  have hsave : ∀ {s' : State}, (s' = s ∨ ∃ w ∈ s.db.workloads, Saved (fun _ op => op.reads) s w s') →
      FilesKept s s' := by
    rintro s' (rfl | ⟨w, hw, h⟩)
    · exact .refl s'
    · exact h.filesKept hwf hw
  cases r with
  | workloadCreate form => exact ((create_ends form).runWith_of hfs).filesKept
  | workloadSave name content ports protos => exact hsave ((save_ends name content ports protos).runWith_of hfs)
  | workloadRestore name id => exact hsave ((restore_ends name id).runWith_of hfs)
  | _ => exact filesKept_of_eq ((s.handle_frame _ faults).workloads (by simp))

/-! ## Types -/

/-- Every workload is of a registered type. -/
def Store.Db.Typed (db : Db) : Prop := ∀ w ∈ db.workloads, (lookup w.type).isSome

/-- Rows that came from typed ones under the same type are typed. -/
theorem typed_of_rows {db db' : Db} (h : db.Typed)
    (hrows : ∀ x ∈ db'.workloads, ∃ w ∈ db.workloads, w.type = x.type) : db'.Typed := by
  intro x hx
  obtain ⟨w, hw, htype⟩ := hrows x hx
  rw [← htype]
  exact h w hw

theorem typed_modify {db : Db} {id : ID} {f : Workload → Workload} (h : db.Typed) (hf : ∀ w, rowid (f w) = rowid w)
    (htype : ∀ w, (f w).type = w.type) : Db.Typed { db with workloads := db.workloads.modify id f hf } := by
  refine typed_of_rows h fun x hx => ?_
  rcases (show x ∈ db.workloads.modify id f hf ↔ _ from Table.mem_modify).1 hx with ⟨hx,
    -⟩ | ⟨w, hw, -, rfl⟩
  · exact ⟨x, hx, rfl⟩
  · exact ⟨w, hw, (htype w).symm⟩

theorem Created.typed {s s' : State} (hs : s.db.Typed) (h : Created s s') : s'.db.Typed := by
  cases h with
  | nothing | fileOnly => exact hs
  | created _ htype h =>
    obtain ⟨-, rfl, rfl⟩ := Db.createWorkload_ok h
    intro x hx
    rcases Table.mem_insert.1 hx with hx | rfl
    · exact hs x hx
    · exact htype

theorem Saved.typed {F : ∀ β : Type, Op β → Bool} {s s' : State} {w : Workload} (hs : s.db.Typed)
    (h : Saved F s w s') : s'.db.Typed := by
  cases h with
  | nothing | fileOnly => exact hs
  | saved h =>
    obtain ⟨-, rfl, rfl⟩ := Db.saveRevision_ok h
    exact typed_modify hs _ fun _ => rfl

theorem exec_typed {β : Type} {op : Op β} {s : State} (hk : op.kind ≠ .revision) (h : s.db.Typed) :
    (s.exec op).2.db.Typed := by
  rcases exec_rows op s with hdb | ⟨α, w, a, hkind, hrun⟩
  · rw [hdb]
    exact h
  · rw [← hkind] at hk
    generalize (s.exec op).2.db = db at hrun ⊢
    have hrows := Write.run_frame hrun
    cases w with
    | createWorkload | saveRevision => exact absurd rfl hk
    | setWorkloadEnabled | setWorkloadDisplayName =>
      cases hrun
      exact typed_modify h _ fun _ => rfl
    | _ => exact typed_of_rows h fun x hx => ⟨x, hrows.workloads nofun nofun ▸ hx, rfl⟩

theorem State.handle_typed {s : State} (h : s.db.Typed) (r : Request) (faults : List Bool) :
    (s.handle r faults).db.Typed := by
  have hsave : ∀ {F : ∀ β : Type, Op β → Bool} {s' : State},
    (s' = s ∨ ∃ w ∈ s.db.workloads, Saved F s w s') →
      s'.db.Typed := by
    rintro F s' (rfl | ⟨w, -, hs'⟩)
    · exact h
    · exact hs'.typed h
  have hother : Kind.revision ∉ r.kinds → (s.handle r faults).db.Typed := fun hk =>
    (Uses.ends (I := fun t : State => t.db.Typed)
      (fun _ op t hop ht => exec_typed (fun heq => hk (heq ▸ hop)) ht) (serve_within r) h).runWith faults
  cases r with
  | workloadCreate form => exact ((create_ends form).runWith faults).typed h
  | workloadSave name content ports protos => exact hsave ((save_ends name content ports protos).runWith faults)
  | workloadRestore name id => exact hsave ((restore_ends name id).runWith faults)
  | _ => exact hother (by simp)

theorem mem_markApplied {db db' : Db} {wid rid : ID} (h : db.markApplied wid rid = .ok db') {x : Workload} :
    x ∈ db'.workloads ↔ (x ∈ db.workloads ∧ x.id ≠ wid) ∨
      ∃ w ∈ db.workloads, w.id = wid ∧ { w with appliedRevisionID := some rid } = x := by
  obtain rfl := Db.markApplied_ok h
  apply Table.mem_modify
  exact fun _ => rfl

theorem State.step_typed {s s' : State} {e : Event} (h : s.db.Typed) (hs : s.step e = some s') : s'.db.Typed := by
  cases e with
  | request r faults => cases hs; exact State.handle_typed h r faults
  | restart =>
    cases hs
    obtain ⟨-, -, -, -, jobs, hdb⟩ := s.restart_frame
    rw [hdb]
    exact h
  | job i =>
    obtain ⟨j, t, j', -, hst, rfl⟩ := Jobs.step_some hs
    cases hst with
    | markedWorkload _ _ hdb =>
      refine typed_of_rows h fun x hx => ?_
      rcases (mem_markApplied hdb).1 hx with ⟨hx, -⟩ | ⟨w, hw, -, rfl⟩
      · exact ⟨x, hx, rfl⟩
      · exact ⟨w, hw, rfl⟩
    | deletedRow _ _ hdb =>
      obtain rfl := Db.deleteWorkload_ok hdb
      exact typed_of_rows h fun x hx => ⟨x, (Table.mem_deleteWhere.1 hx).1, rfl⟩
    | _ => exact h

theorem State.Reachable.typed {s : State} (h : s.Reachable) : s.db.Typed := by
  obtain ⟨host, es, hs⟩ := h
  exact Runs.exec_inv_all (I := fun s : State => s.db.Typed) (fun _ _ _ => State.step_typed)
    (fun _ h => absurd h Table.not_mem_empty) hs

end Nixbox
