/-
The manager over whole runs: what a refused call did, what is recorded of a job function that
returned, and that nothing of a finished row but its workload ever goes.
-/
import Nixbox.Jobs.Exclusive

namespace Nixbox.Slot

open Keyed Table Store Jobs

namespace Process

variable {p p' q : Process} {t : Task} {ts pre post : List Task} {a : Act} {e : Event} {es : List Event}

/-! ## What a call has done -/

/-- The call has created a row or run its function. -/
def Acted (p : Process) (call : Nat) : Prop := ∃ row, .created call row ∈ p.log ∨ .ran call row ∈ p.log

/-- The call was answered `ErrBusy`. -/
def Refused (p : Process) (call : Nat) : Prop := .answered call (.error .busy) ∈ p.log

/-- Each task has its own number; a call that waits for the slot or was refused it has done
nothing. -/
structure Numbered (p : Process) : Prop where
  calls : ∀ t ∈ p.tasks, t.call < p.calls
  distinct : (p.tasks.map Task.call).Nodup
  acted : ∀ c, p.Acted c → c < p.calls
  waiting : ∀ t ∈ p.tasks, t.holds = false → ¬ p.Acted t.call
  refused : ∀ c, p.Refused c → c < p.calls ∧ (∀ t ∈ p.tasks, t.call ≠ c) ∧ ¬ p.Acted c

theorem numbered_fresh (clock : Nat → Time) : (fresh clock).Numbered where
  calls _ ht := nomatch ht
  distinct := .nil
  acted _ h := by obtain ⟨row, h | h⟩ := h <;> cases h
  waiting _ ht := nomatch ht
  refused _ h := nomatch h

theorem mem_note {h h' : Happened} : h ∈ (p.note h').log ↔ h ∈ p.log ∨ h = h' := by
  unfold note
  rw [List.mem_append, List.mem_singleton]

theorem acted_note {h : Happened} {c : Nat} (hc : (p.note h).Acted c) :
    p.Acted c ∨ ∃ row, h = .created c row ∨ h = .ran c row := by
  obtain ⟨row, hc | hc⟩ := hc <;> rcases mem_note.1 hc with hc | hc
  · exact .inl ⟨row, .inl hc⟩
  · exact .inr ⟨row, .inl hc.symm⟩
  · exact .inl ⟨row, .inr hc⟩
  · exact .inr ⟨row, .inr hc.symm⟩

/-- Only a task past its swap adds to what its call has done. -/
theorem Stepped.acted (h : Stepped p a t q ts) {c : Nat} (hc : q.Acted c) :
    p.Acted c ∨ (c = t.call ∧ t.holds = true) := by
  cases h with
  | claimed | notCreated | read | notRead | logged | notOpened | ran | recordedFailure | released => exact .inl hc
  | refused | created | launched | gaveBack | opened | returned | recorded =>
    rcases acted_note hc with hc | ⟨row, hc | hc⟩
    · exact .inl hc
    · cases hc <;> exact .inr ⟨rfl, rfl⟩
    · cases hc <;> exact .inr ⟨rfl, rfl⟩

/-- A call is refused the slot at its swap, its last step. -/
theorem Stepped.refused_cases (h : Stepped p a t q ts) {c : Nat} (hc : q.Refused c) :
    p.Refused c ∨ (c = t.call ∧ t.holds = false ∧ ts = []) := by
  cases h with
  | claimed | notCreated | read | notRead | logged | notOpened | ran | recordedFailure | released => exact .inl hc
  | refused | created | launched | gaveBack | opened | returned | recorded =>
    rcases mem_note.1 hc with hc | hc
    · exact .inl hc
    · cases hc <;> exact .inr ⟨rfl, rfl, rfl⟩

/-- What a step leaves in the task's place is the same call, past its swap. -/
theorem Stepped.left (h : Stepped p a t q ts) :
    (ts.map Task.call).Sublist [t.call] ∧ ∀ x ∈ ts, x.holds = true := by
  cases h with
  | refused | gaveBack | released => exact ⟨List.nil_sublist _, nofun⟩
  | _ => exact ⟨List.Sublist.refl _, fun x hx => by rw [List.mem_singleton.1 hx]; rfl⟩

theorem numbered_stepped (h : p.Numbered) (hp : p.tasks = pre ++ t :: post) (hst : Stepped p a t q ts) :
    ({ q with tasks := pre ++ ts ++ post } : Process).Numbered := by
  obtain ⟨hcalls, hholds⟩ := hst.left
  have ht : t ∈ p.tasks := by simp [hp]
  have hothers : ∀ x ∈ pre ++ post, x ∈ p.tasks ∧ x.call ≠ t.call := by
    intro x hx
    have hd := h.distinct
    rw [hp, List.map_append, List.map_cons, List.nodup_middle, List.nodup_cons, ← List.map_append] at hd
    refine ⟨by rw [hp]; simp at hx ⊢; tauto, fun heq => hd.1 (List.mem_map.2 ⟨x, hx, heq⟩)⟩
  -- the tasks a step leaves are of the call that took it
  have hleft : ∀ x ∈ ts, x.call = t.call := fun x hx =>
    List.mem_singleton.1 (hcalls.subset (List.mem_map_of_mem hx))
  have hmem : ∀ x ∈ pre ++ ts ++ post, x ∈ pre ++ post ∨ x ∈ ts := fun x hx => by simp at hx ⊢; tauto
  have hn : ∀ {n}, n < p.calls → n < q.calls := fun {n} hlt => by rw [hst.frame.2]; exact hlt
  refine ⟨fun x hx => ?_, ?_, fun c hc => ?_, fun x hx hxh => ?_, fun c hc => ?_⟩
  · rcases hmem x hx with hx | hx
    · exact hn (h.calls x (hothers x hx).1)
    · exact hn (hleft x hx ▸ h.calls t ht)
  · have hd := h.distinct
    rw [hp] at hd
    refine hd.sublist ?_
    rw [List.append_assoc, List.map_append, List.map_append, List.map_append, List.map_cons]
    exact List.Sublist.append_left (List.Sublist.append_right hcalls _) _
  · rcases hst.acted hc with hc | ⟨rfl, -⟩
    · exact hn (h.acted c hc)
    · exact hn (h.calls t ht)
  · intro hact
    rcases hmem x hx with hx | hx
    · obtain ⟨hx, hne⟩ := hothers x hx
      rcases hst.acted hact with hact | ⟨heq, -⟩
      · exact h.waiting x hx hxh hact
      · exact hne heq
    · rw [hholds x hx] at hxh; cases hxh
  · rcases hst.refused_cases hc with hc | ⟨rfl, hth, rfl⟩
    · obtain ⟨hlt, hno, hact⟩ := h.refused c hc
      refine ⟨hn hlt, fun x hx heq => ?_, fun hq => ?_⟩
      · rcases hmem x hx with hx | hx
        · exact hno x (hothers x hx).1 heq
        · exact hno t ht ((hleft x hx).symm.trans heq)
      · rcases hst.acted hq with hq | ⟨heq, -⟩
        · exact hact hq
        · exact hno t ht heq.symm
    · refine ⟨hn (h.calls t ht), fun x hx heq => ?_, fun hq => ?_⟩
      · rcases hmem x hx with hx | hx
        · exact (hothers x hx).2 heq
        · cases hx
      · rcases hst.acted hq with hq | ⟨-, hh⟩
        · exact h.waiting t ht hth hq
        · rw [hth] at hh; cases hh

/-! ## What is recorded of a job function -/

/-- A failed row has a non-zero exit code; a row tells what was recorded of its function; and a
function that returned is recorded, or about to be, or the process died first. -/
structure Filed (p : Process) : Prop where
  failing : ∀ j ∈ p.db.jobs, Failing j
  recorded : ∀ row r, .recorded row r ∈ p.log → ∃ j ∈ p.db.jobs, j.id = row ∧ Tells j (outcome (some r))
  returned : ∀ l l' row r, p.log = l ++ .returned row r :: l' →
    .recorded row r ∈ l' ∨ (∃ c, .job c row (.finish (some r)) ∈ p.tasks) ∨ .died ∈ l'

theorem filed_fresh (clock : Nat → Time) : (fresh clock).Filed where
  failing _ hj := nomatch hj
  recorded _ _ h := nomatch h
  returned l l' row r h := by simp [fresh] at h

/-- What a row tells of an ended job stays. -/
theorem tells_kept {D : ID → Prop} {db db' : Db} {o : Outcome} {row : ID} (hk : db.Kept D db')
    (ho : o.status ≠ .running) (h : ∃ j ∈ db.jobs, j.id = row ∧ Tells j o) :
    ∃ j ∈ db'.jobs, j.id = row ∧ Tells j o := by
  obtain ⟨j, hj, hid, ht⟩ := h
  rcases hk j hj (ht.status ▸ ho) with hj' | ⟨hj', -⟩
  · exact ⟨j, hj', hid, ht⟩
  · exact ⟨j.unbound, hj', hid, ht.status, ht.exitCode, ht.generation⟩

theorem Stepped.log (h : Stepped p a t q ts) : q.log = p.log ∨ ∃ x, q.log = p.log ++ [x] ∧
    ∀ row r, x = .returned row r → .job t.call row (.finish (some r)) ∈ ts := by
  cases h with
  | claimed | notCreated | read | notRead | logged | notOpened | ran | recordedFailure | released => exact .inl rfl
  | refused | created | launched | gaveBack | opened | returned | recorded =>
    refine .inr ⟨_, rfl, fun row r heq => ?_⟩
    cases heq <;> exact List.mem_singleton.2 rfl

theorem Stepped.records {c : Nat} {row : ID} {r : Returned}
    (h : Stepped p a (.job c row (.finish (some r))) q ts) : q.log = p.log ++ [.recorded row r] := by
  cases h
  rfl

theorem Stepped.recorded_cases (h : Stepped p a t q ts)
    (hrows : t.holds = true → p.db.runningIDs = t.runningRow.toList) {row : ID} {r : Returned}
    (hr : .recorded row r ∈ q.log) : .recorded row r ∈ p.log ∨
      ∃ j ∈ q.db.jobs, j.id = row ∧ Tells j (outcome (some r)) := by
  cases h with
  | claimed | notCreated | read | notRead | logged | notOpened | ran | recordedFailure | released => exact .inl hr
  | refused | created | launched | gaveBack | opened | returned =>
    rcases mem_note.1 hr with hr | hr
    · exact .inl hr
    · cases hr
  | recorded =>
    rcases mem_note.1 hr with hr | hr
    · exact .inl hr
    · cases hr
      exact .inr (tells_finishJob (by simp [hrows rfl, Task.runningRow]))

theorem snoc_split {α : Type} {l l' m : List α} {x y : α} (h : m ++ [y] = l ++ x :: l') :
    (∃ l'', l' = l'' ++ [y] ∧ m = l ++ x :: l'') ∨ (l' = [] ∧ x = y) := by
  rcases List.eq_nil_or_concat l' with rfl | ⟨l'', z, rfl⟩
  · exact .inr ⟨rfl, (List.append_inj' h rfl).2 |> List.singleton_inj.1 |> Eq.symm⟩
  · rw [List.concat_eq_append, ← List.cons_append, ← List.append_assoc] at h
    obtain ⟨hm, hy⟩ := List.append_inj' h rfl
    rw [List.singleton_inj] at hy
    exact .inl ⟨l'', by rw [hy, List.concat_eq_append], hm⟩

theorem filed_stepped (h : p.Filed) (hs : p.Sound) (hp : p.tasks = pre ++ t :: post)
    (hst : Stepped p a t q ts) : ({ q with tasks := pre ++ ts ++ post } : Process).Filed := by
  have hrows : t.holds = true → p.db.runningIDs = t.runningRow.toList := fun ht => (hs.alone hp ht).2.2.2
  have hchange := hst.change hrows
  refine ⟨hchange.failing h.failing, fun row r hr => ?_, fun l l' row r hl => ?_⟩
  · rcases hst.recorded_cases hrows hr with hr | hj
    · exact tells_kept hchange.kept (outcome_status _) (h.recorded row r hr)
    · exact hj
  · -- a task about to record its end does so now or stays where it is
    have hpending : ∀ l'' : List Happened, (∃ c, .job c row (.finish (some r)) ∈ p.tasks) →
        q.log = p.log ++ [.recorded row r] ∨
          Happened.recorded row r ∈ l'' ∨ (∃ c, .job c row (.finish (some r)) ∈ pre ++ ts ++ post) ∨
            Happened.died ∈ l'' := by
      rintro l'' ⟨c, hc⟩
      rw [hp, List.mem_append, List.mem_cons] at hc
      rcases hc with hc | rfl | hc
      · exact .inr (.inr (.inl ⟨c, by simp [hc]⟩))
      · exact .inl hst.records
      · exact .inr (.inr (.inl ⟨c, by simp [hc]⟩))
    change q.log = _ at hl
    rcases hst.log with hlog | ⟨x, hlog, hx⟩
    · rcases h.returned l l' row r (hlog ▸ hl) with hr | hc | hd
      · exact .inl hr
      · rcases hpending l' hc with heq | hres
        · simp [hlog] at heq
        · exact hres
      · exact .inr (.inr hd)
    · -- what returned before this step, or in it
      rcases snoc_split (hlog ▸ hl) with ⟨l'', rfl, hpl⟩ | ⟨rfl, rfl⟩
      · rcases h.returned l l'' row r hpl with hr | hc | hd
        · exact .inl (by simp [hr])
        · rcases hpending (l'' ++ [x]) hc with heq | hres
          · rw [hlog, List.append_right_inj, List.singleton_inj] at heq
            exact .inl (by simp [heq])
          · exact hres
        · exact .inr (.inr (by simp [hd]))
      · exact .inr (.inl ⟨t.call, by simp [hx row r rfl]⟩)

/-! ## Whole runs -/

/-- What every step of a run keeps. -/
structure Good (p : Process) : Prop where
  sound : p.Sound
  numbered : p.Numbered
  filed : p.Filed

theorem good_fresh (clock : Nat → Time) : (fresh clock).Good :=
  ⟨sound_fresh clock, numbered_fresh clock, filed_fresh clock⟩

theorem filed_change {D : ID → Prop} (h : p.Filed) (hc : Change D p.db p'.db) (hlog : p'.log = p.log)
    (htasks : ∀ x ∈ p.tasks, x ∈ p'.tasks) : p'.Filed := by
  refine ⟨hc.failing h.failing, fun row r hr => ?_, fun l l' row r hl => ?_⟩
  · exact tells_kept hc.kept (outcome_status _) (h.recorded row r (hlog ▸ hr))
  · rcases h.returned l l' row r (hlog ▸ hl) with hr | ⟨c, hc⟩ | hd
    · exact .inl hr
    · exact .inr (.inl ⟨c, htasks _ hc⟩)
    · exact .inr (.inr hd)

theorem good_crash (h : p.Good) : p.crash.Good := by
  refine ⟨sound_crash h.sound, ⟨nofun, .nil, fun c hc => ?_, nofun, fun c hc => ?_⟩, ?_⟩
  · rcases acted_note (p := p) (h := .died) hc with hc | ⟨row, hc | hc⟩
    · exact h.numbered.acted c hc
    · cases hc
    · cases hc
  · rcases mem_note.1 hc with hc | hc
    · obtain ⟨hlt, -, hact⟩ := h.numbered.refused c hc
      refine ⟨hlt, nofun, fun hq => ?_⟩
      rcases acted_note (p := p) (h := .died) hq with hq | ⟨row, hq | hq⟩
      · exact hact hq
      · cases hq
      · cases hq
    · cases hc
  · refine ⟨h.filed.failing, fun row r hr => ?_, fun l l' row r hl => .inr (.inr ?_)⟩
    · rcases mem_note.1 hr with hr | hr
      · exact h.filed.recorded row r hr
      · cases hr
    · rcases snoc_split (show p.log ++ [.died] = _ from hl) with ⟨l'', rfl, -⟩ | ⟨-, heq⟩
      · simp
      · cases heq

theorem good_recover (h : p.Good) (hs : p.recoverStep false = some p') : p'.Good := by
  unfold recoverStep at hs
  split at hs
  · -- the rows found running
    cases hs
    exact ⟨⟨h.sound.slot, fun _ => h.sound.booting (by simp [*]), h.sound.single,
      fun _ hr => Boot.finish.inj hr, fun hup => nomatch hup⟩, { h.numbered with }, { h.filed with }⟩
  · rename_i hboot
    cases hs
    have htasks : p.tasks = [] := h.sound.booting (by simp [hboot])
    refine ⟨⟨h.sound.slot, fun hne => absurd rfl hne, h.sound.single, fun _ hr => (nomatch hr), fun _ => ?_⟩,
      { h.numbered with }, { h.filed with }⟩
    show p.db.runningIDs = rowsOf p.tasks
    rw [h.sound.stale _ hboot, htasks]
    rfl
  · rename_i id rows hboot
    cases hs
    have hrun : p.db.runningIDs = id :: rows := h.sound.stale _ hboot
    -- at most one row was running
    have hnil : rows = [] := by
      have hsingle := h.sound.single
      rw [hrun, List.length_cons] at hsingle
      exact List.length_eq_zero_iff.1 (by omega)
    have hleft : (p.db.finishJob id .failed (-1) none p.now).runningIDs = rows := by
      rw [Db.finishJob_runningIDs (by nofun), hrun, hnil]
      simp
    have hchange : Change (fun _ => False) p.db (p.db.finishJob id .failed (-1) none p.now) :=
      .finished none (by simp [hrun]) rfl
    refine ⟨⟨h.sound.slot, fun _ => h.sound.booting (by simp [hboot]), ?_,
      fun _ hr => hleft.trans (Boot.finish.inj hr),
      fun hup => nomatch hup⟩, { h.numbered with }, filed_change h.filed hchange rfl fun _ hx => hx⟩
    show (p.db.finishJob id .failed (-1) none p.now).runningIDs.length ≤ 1
    rw [hleft, hnil]
    exact Nat.zero_le _
  · cases hs

theorem good_call (h : p.Good) {kind : JobKind} {wid : Option ID} (hup : p.boot = .up) :
    ({ p with
      tasks := p.tasks ++ [.start p.calls kind wid .swap]
      calls := p.calls + 1 } : Process).Good := by
  -- the new task waits under a number no task has had
  have hlast : ∀ x ∈ p.tasks ++ [.start p.calls kind wid .swap], x ∈ p.tasks ∨
      x = .start p.calls kind wid .swap :=
    fun x hx => by simpa using hx
  refine ⟨⟨?_, fun hne => absurd hup hne, h.sound.single, h.sound.stale, fun _ => ?_⟩,
    ⟨fun x hx => ?_, ?_, fun c hc => Nat.lt_succ_of_lt (h.numbered.acted c hc), fun x hx hxh => ?_, fun c hc => ?_⟩,
    filed_change (D := fun _ => False) h.filed (.same rfl) rfl fun x hx => List.mem_append_left _ hx⟩
  · show holders (p.tasks ++ _) = _
    rw [holders_append, h.sound.slot]
    rfl
  · show p.db.runningIDs = rowsOf (p.tasks ++ _)
    rw [rowsOf_append, h.sound.owned hup]
    simp [rowsOf, Task.runningRow]
  · rcases hlast x hx with hx | rfl
    · exact Nat.lt_succ_of_lt (h.numbered.calls x hx)
    · exact Nat.lt_succ_self _
  · show ((p.tasks ++ _).map Task.call).Nodup
    rw [List.map_append, List.nodup_append]
    refine ⟨h.numbered.distinct, List.nodup_singleton _, fun c hc d hd heq => ?_⟩
    obtain ⟨x, hx, rfl⟩ := List.mem_map.1 hc
    have hlt := h.numbered.calls x hx
    rw [heq, List.mem_singleton.1 hd] at hlt
    exact Nat.lt_irrefl _ hlt
  · rcases hlast x hx with hx | rfl
    · exact h.numbered.waiting x hx hxh
    · exact fun hact => Nat.lt_irrefl _ (h.numbered.acted _ hact)
  · obtain ⟨hlt, hno, hact⟩ := h.numbered.refused c hc
    refine ⟨Nat.lt_succ_of_lt hlt, fun x hx heq => ?_, hact⟩
    rcases hlast x hx with hx | rfl
    · exact hno x hx heq
    · exact Nat.lt_irrefl _ (heq ▸ hlt)

theorem request_change {s : Statement} (hq : s.ofManager = false) (now : Time) (db : Db) :
    Change (fun wid => s = .deleteWorkload wid) db (s.run now db) := by
  rcases run_jobs hq now db with h | ⟨wid, hs, h⟩
  · exact .same h
  · exact .detached hs h

theorem good_request (h : p.Good) {s : Statement} (hq : s.ofManager = false) (hup : p.boot = .up) :
    (p.wrote (s.run p.now p.db)).Good := by
  have hrows : (s.run p.now p.db).runningIDs = p.db.runningIDs := run_runningIDs hq _ _
  refine ⟨⟨h.sound.slot, fun hne => absurd hup hne, ?_, fun rows hr => ?_,
    fun hup => hrows.trans (h.sound.owned hup)⟩,
    { h.numbered with }, filed_change h.filed (request_change hq _ _) rfl fun _ hx => hx⟩
  · exact hrows ▸ h.sound.single
  · exact hrows.trans (h.sound.stale rows hr)

theorem good_task (h : p.Good) {i : Nat} (ha : a.failing = false) (hs : p.stepAt i a = some p') : p'.Good := by
  obtain ⟨pre, t, post, q, ts, hp, hstep, rfl⟩ := stepAt_some hs
  have hst := taskStep_stepped ha hstep
  exact ⟨sound_stepped h.sound hp hst, numbered_stepped h.numbered hp hst, filed_stepped h.filed h.sound hp hst⟩

theorem good_step (h : p.Good) (he : e.faultless = true) (hs : p.step e = some p') : p'.Good := by
  cases e with
  | recover fails =>
    cases fails with
    | false => exact good_recover h hs
    | true => cases he
  | call kind wid =>
    unfold step at hs
    dsimp only at hs
    split at hs
    · rename_i hup; cases hs; exact good_call h hup
    · cases hs
  | task i a => exact good_task h (by simpa [Event.faultless] using he) hs
  | request s =>
    unfold step at hs
    dsimp only at hs
    split at hs
    · rename_i hc; cases hs; exact good_request h hc.2 hc.1
    · cases hs
  | crash => cases hs; exact good_crash h

theorem good_run (hes : ∀ e ∈ es, e.faultless = true) (h : p.Good) (hrun : p.run es = some p') : p'.Good := by
  induction es generalizing p with
  | nil => cases hrun; exact h
  | cons e es ih =>
    obtain ⟨q, hq, hrun⟩ := Runs.exec_cons_some.1 hrun
    exact ih (fun x hx => hes x (List.mem_cons_of_mem _ hx)) (good_step h (hes e (List.mem_cons_self ..)) hq) hrun

theorem step_kept (h : p.Good) (he : e.faultless = true) (hs : p.step e = some p') :
    p.db.Kept (fun wid => e.deletes wid = true) p'.db := by
  cases e with
  | recover fails =>
    unfold step at hs
    dsimp only at hs
    unfold recoverStep at hs
    split at hs
    · split at hs <;> cases hs <;> exact Db.kept_of_jobs rfl
    · cases hs; exact Db.kept_of_jobs rfl
    · rename_i id rows hboot
      split at hs
      · cases hs; exact Db.kept_of_jobs rfl
      · cases hs
        -- a row that is recovered was running
        exact (Change.finished (D := fun _ => False) none (by simp [h.sound.stale _ hboot]) rfl).kept.mono
          fun _ hf => hf.elim
    · cases hs
  | call kind wid =>
    unfold step at hs
    dsimp only at hs
    split at hs <;> cases hs
    exact Db.kept_of_jobs rfl
  | task i a =>
    obtain ⟨pre, t, post, q, ts, hp, hstep, rfl⟩ := stepAt_some hs
    have hst := taskStep_stepped (by simpa [Event.faultless] using he) hstep
    refine (hst.change fun ht => (h.sound.alone hp ht).2.2.2).kept.mono fun wid ha => ?_
    rw [ha]
    exact beq_self_eq_true wid
  | request s =>
    unfold step at hs
    dsimp only at hs
    split at hs
    · rename_i hc
      cases hs
      refine (request_change hc.2 p.now p.db).kept.mono fun wid hs => ?_
      rw [hs]
      exact beq_self_eq_true wid
    · cases hs
  | crash => cases hs; exact Db.kept_of_jobs rfl

theorem run_kept (hes : ∀ e ∈ es, e.faultless = true) (h : p.Good) (hrun : p.run es = some p') :
    p.db.Kept (fun wid => ∃ e ∈ es, e.deletes wid = true) p'.db := by
  induction es generalizing p with
  | nil => cases hrun; exact Db.kept_of_jobs rfl
  | cons e es ih =>
    obtain ⟨q, hq, hrun⟩ := Runs.exec_cons_some.1 hrun
    have he := hes e (List.mem_cons_self ..)
    refine ((step_kept h he hq).trans
      (ih (fun x hx => hes x (List.mem_cons_of_mem _ hx)) (good_step h he hq) hrun)).mono fun wid hd => ?_
    rcases hd with hd | ⟨x, hx, hd⟩
    · exact ⟨e, List.mem_cons_self .., hd⟩
    · exact ⟨x, List.mem_cons_of_mem _ hx, hd⟩

/-- One job at a time. -/
structure Exclusive (p : Process) : Prop where
  /-- At most one job function runs. -/
  function : p.tasks.countP Task.inFunction ≤ 1
  /-- A refused call creates no row and runs nothing. -/
  refused : ∀ c row, .answered c (.error .busy) ∈ p.log → .created c row ∉ p.log ∧ .ran c row ∉ p.log
  /-- At most one row is running. -/
  single : p.db.runningJobs.length ≤ 1
  /-- Once the server listens, that row is the one of the task which holds the slot. -/
  slot : p.boot = .up → ∀ j ∈ p.db.runningJobs, p.isBusy = true ∧
    ∃ t ∈ p.tasks, t.holds = true ∧ t.runningRow = some j.id
  /-- A finished row stays, but for the workload of a row whose workload is deleted later. -/
  finished : ∀ es p', (∀ e ∈ es, e.faultless = true) → p.run es = some p' →
    ∀ j ∈ p.db.jobs, j.status ≠ .running → j ∈ p'.db.jobs ∨
      (j.unbound ∈ p'.db.jobs ∧ ∃ wid, j.workloadID = some wid ∧ ∃ e ∈ es, e.deletes wid = true)
  /-- A row whose goroutine recorded what its function returned tells that. -/
  recorded : ∀ row r, .recorded row r ∈ p.log → ∃ j ∈ p.db.jobs, j.id = row ∧
    (j.status = .ok ↔ r.failed = false ∧ r.exitCode = 0) ∧ j.generation = r.generation
  /-- Of a function that returned this is recorded, or the next thing its goroutine does, unless
  the process died. -/
  returned : ∀ l l' row r, p.log = l ++ .returned row r :: l' →
    .recorded row r ∈ l' ∨ (∃ c, .job c row (.finish (some r)) ∈ p.tasks) ∨ .died ∈ l'
  /-- A failed row has a non-zero exit code. -/
  failed : ∀ j ∈ p.db.jobs, j.status = .failed → ∃ code, j.exitCode = some code ∧ code ≠ 0

/-- One job at a time, whatever the order of the calls, their goroutines, deaths of the process and
recoveries. -/
theorem jobs_exclusive {clock : Nat → Time} (hes : ∀ e ∈ es, e.faultless = true)
    (hrun : (fresh clock).run es = some p) : p.Exclusive := by
  have h : p.Good := good_run hes (good_fresh clock) hrun
  refine ⟨?_, fun c row hc => ?_, ?_, fun hup j hj => ?_, fun es' p' hes' hrun' => ?_, fun row r hr => ?_,
    h.filed.returned, h.filed.failing⟩
  · calc p.tasks.countP Task.inFunction ≤ holders p.tasks := inFunction_le_holders _
      _ = p.busy.toNat := h.sound.slot
      _ ≤ 1 := Bool.toNat_le _
  · obtain ⟨-, -, hact⟩ := h.numbered.refused c hc
    exact ⟨fun hcr => hact ⟨row, .inl hcr⟩, fun hran => hact ⟨row, .inr hran⟩⟩
  · exact Db.length_runningIDs p.db ▸ h.sound.single
  · have hid : j.id ∈ rowsOf p.tasks := h.sound.owned hup ▸ List.mem_map_of_mem hj
    obtain ⟨t, ht, hrow⟩ := List.mem_filterMap.1 hid
    have hholds : t.holds = true := by
      cases hh : t.holds with
      | true => rfl
      | false => rw [Task.holds_of_runningRow hh] at hrow; cases hrow
    obtain ⟨pre, post, hp⟩ := List.append_of_mem ht
    exact ⟨(h.sound.alone hp hholds).1, t, ht, hholds, hrow⟩
  · exact run_kept hes' h hrun'
  · obtain ⟨j, hj, hid, htells⟩ := h.filed.recorded row r hr
    exact ⟨j, hj, hid, htells.status ▸ outcome_ok r, htells.generation.trans (outcome_generation r)⟩

/-! ## A run in which a finished row changes, and one in which a job that went well has failed -/

/-- The events of a job that goes well, as task 0. -/
def jobGoes (kind : JobKind) (wid : Option ID) (function : List Event) : List Event :=
  [.call kind wid] ++ List.replicate 6 (.task 0 .goes) ++ function

/-- A job function that returns exit code 0 and no error. -/
def wentWell : Event := .task 0 (.returns ⟨0, none, false⟩)

/-- The first process is up, and there is a workload. -/
def upWithWorkload : List Event :=
  [.recover false, .recover false, .request (.write (.createWorkload "web" "" "nixos-container" "" ""))]

/-- An apply of the workload ends; then the workload is destroyed. -/
def applied : List Event := upWithWorkload ++ jobGoes .apply (some 1) [wentWell, .task 0 .goes, .task 0 .goes]

/-- Another job of the workload, whose function deletes it. -/
def destroyed : List Event := jobGoes .apply (some 1) [.task 0 (.runs (.deleteWorkload 1))]

/-- The process dies after a job function has returned and before that is recorded. -/
def diedUnrecorded : List Event :=
  upWithWorkload ++ jobGoes .apply none [wentWell, .crash] ++ List.replicate 3 (.recover false)

/-- The first job's row. -/
def firstJob (p : Process) : Option Job := p.db.jobs.find? 1

/-- A job of the workload has been recorded. -/
def afterApplied : Process := ((fresh Int.ofNat).run applied).get (by decide +kernel)

/-- Then the workload was destroyed. -/
def afterDestroyed : Process := (afterApplied.run destroyed).get (by decide +kernel)

/-- A job the process died on has been recovered. -/
def afterRecovery : Process := ((fresh Int.ofNat).run diedUnrecorded).get (by decide +kernel)

theorem jobs_exclusive_applied : afterApplied.Exclusive :=
  jobs_exclusive (by decide +kernel) (Option.some_get _).symm

/-- Deleting a workload changes the finished rows of its jobs; and a function that returned with
exit code 0 and no error has a failed row when the process died before that was recorded. -/
theorem jobs_not_exclusive :
    (¬ ∀ clock es p es' p', (∀ e ∈ es, e.faultless = true) → (fresh clock).run es = some p →
      (∀ e ∈ es', e.faultless = true) → p.run es' = some p' →
        ∀ j ∈ p.db.jobs, j.status ≠ .running → j ∈ p'.db.jobs) ∧
    ¬ ∀ clock es p, (∀ e ∈ es, e.faultless = true) → (fresh clock).run es = some p → p.boot = .up →
      ∀ row r, .returned row r ∈ p.log → ∀ j ∈ p.db.jobs, j.id = row → j.status ≠ .running →
        (j.status = .ok ↔ r.failed = false ∧ r.exitCode = 0) := by
  constructor
  · intro h
    have hj : afterApplied.firstJob.get (by decide +kernel) ∈ afterApplied.db.jobs.rows := by decide +kernel
    have hj' := h Int.ofNat applied afterApplied destroyed afterDestroyed (by decide +kernel)
      (Option.some_get _).symm (by decide +kernel) (Option.some_get _).symm _ hj (by decide +kernel)
    exact absurd (mem_iff.1 hj') (by decide +kernel)
  · intro h
    have hj : afterRecovery.firstJob.get (by decide +kernel) ∈ afterRecovery.db.jobs.rows := by decide +kernel
    have hiff := h Int.ofNat diedUnrecorded afterRecovery (by decide +kernel) (Option.some_get _).symm
      (by decide +kernel) 1 ⟨0, none, false⟩ (by decide +kernel) _ hj (by decide +kernel) (by decide +kernel)
    exact absurd (hiff.2 ⟨rfl, rfl⟩) (by decide +kernel)

end Process

end Nixbox.Slot
