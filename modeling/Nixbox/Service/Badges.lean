/-
The badges after an apply. The job marks inputs and secrets by id, and what has that id when it is
marked need not be what the snapshot saw: an edit made while the rebuild ran is then shown as
applied. As long as the job meets the rows of its snapshot, a badge tells the truth.
-/
import Nixbox.Service.SecretEdits

namespace Nixbox

open Effect Store Server Keyed Directory
open Nix hiding FlakeInput

/-! ## Definitions -/

section Definitions

variable {ρ : Type} [Badged ρ] [HasId ρ]

/-- A row like `x`, the mark aside. -/
def Has (t : Table ρ) (x : ρ) : Prop := ∃ y ∈ t, unapplied y = unapplied x

/-- The row with id `id`, if it is still there, is the one of `t₀`, the mark aside. -/
def sameRow [DecidableEq ρ] (t₀ t : Table ρ) (id : ID) : Bool :=
  (t.find? id).all fun x => (t₀.find? id).any fun y => unapplied y == unapplied x

/-- The row `x` was there in `s₀` and is there in every state of the run from `s₁`. -/
structure Unedited (table : State → Table ρ) (s₀ s₁ : State) (es : List Event) (x : ρ) : Prop where
  was : Has (table s₀) x
  stays : ∀ pre post t, es = pre ++ post → s₁.run pre = some t → Has (table t) x

/-- The badges of `s`, after the run from `s₁`: an input shown as locked, a secret shown as applied,
is one of `s₀`, not edited since, the secret with its value and its mounts. -/
structure BadgesTrue (s₀ s₁ : State) (es : List Event) (s : State) : Prop where
  inputs : ∀ f ∈ s.db.flakeInputs, f.status = .locked → Unedited (·.db.flakeInputs) s₀ s₁ es f
  secrets : ∀ x ∈ s.db.secrets, x.status = .applied → Unedited (·.db.secrets) s₀ s₁ es x
  values : ∀ x ∈ s.db.secrets, x.status = .applied →
    ∀ pre post t, es = pre ++ post → s₁.run pre = some t →
    SameValue s₀ t x

end Definitions

/-- The condition on a step: what the job is about to mark is a row of the snapshot, unedited, and an
edit of a secret gets as far as the stamp. -/
def badgesGuarded (s₀ s : State) : Event → Bool
  | .request r faults => r.stamps s faults
  | .job _ =>
    match s.phase with
    | some (.mark [] (id :: _) _) => sameRow s₀.db.flakeInputs s.db.flakeInputs id
    | some (.mark [] [] (id :: _)) => sameRow s₀.db.secrets s.db.secrets id
    | _ => true
  | .restart => true

/-! ## Rows -/

section Rows

variable {ρ : Type} [Badged ρ] [HasId ρ] {t₀ t t' : Table ρ} {now : Time}

theorem Has.congr {x y : ρ} (h : Has t x) (heq : unapplied x = unapplied y) : Has t y := by
  obtain ⟨z, hz, hsame⟩ := h
  exact ⟨z, hz, hsame.trans heq⟩

/-- A row is pending, or it is one of `t₀`. -/
def Known (t₀ t : Table ρ) : Prop := ∀ x ∈ t, Pending x ∨ Has t₀ x

theorem Known.refl (t : Table ρ) : Known t t := fun x hx => .inr ⟨x, hx, rfl⟩

theorem WrittenSince.known (h : WrittenSince now t t') (hk : Known t₀ t) : Known t₀ t' := by
  intro x hx
  rcases h x hx with hx | ⟨-, hp⟩
  · exact hk x hx
  · exact .inl hp

/-- Marking an unedited row of `t₀`. -/
theorem mark_known [DecidableEq ρ] {id : ID} {f : ρ → ρ} (hf : ∀ r, rowid (f r) = rowid r)
    (hsame : ∀ r, unapplied (f r) = unapplied r) (hrow : sameRow t₀ t id = true) (hk : Known t₀ t) :
    Known t₀ (t.modify id f hf) := by
  intro x hx
  rcases Table.mem_modify.1 hx with ⟨hx, -⟩ | ⟨y, hy, rfl, rfl⟩
  · exact hk x hx
  · unfold sameRow at hrow
    rw [Table.find?_mem hy, Option.all_some] at hrow
    obtain ⟨z, hz, heq⟩ := (Option.any_eq_true _ _).1 hrow
    refine .inr ⟨z, (Table.find?_eq_some.1 hz).1, ?_⟩
    rw [hsame]
    simpa using heq

end Rows

/-! ## The job in the slot -/

/-- The job in the slot, if any, runs the function `fn`. -/
structure Carries (fn : JobFn) (s : State) : Prop where
  held : s.SlotHeld
  job : ∀ j, s.job = some j → j.fn = fn

theorem Carries.step {fn : JobFn} {s s' : State} {e : Event} (h : Carries fn s) (hfl : s.inFlight = true)
    (hs : s.step e = some s') : Carries fn s' := by
  refine ⟨State.step_slotHeld h.held hs, ?_⟩
  cases e with
  | request r faults =>
    cases hs
    cases s.handle_slot r faults with
    | kept hjob => rw [hjob]; exact h.job
    | claimed hfree => exact absurd (h.held hfl) (by rw [hfree]; exact nofun)
  | restart =>
    cases hs
    intro j hj
    rw [s.restart_frame.2.1] at hj
    cases hj
  | job i =>
    obtain ⟨j, t, j', hj, hst, rfl⟩ := Jobs.step_some hs
    intro k hk
    obtain rfl : j' = k := Option.some.inj hk
    exact hst.frame.1.trans (h.job j hj)

/-- A step of an apply job leaves values and mounts. -/
theorem apply_step_values {i : Jobs.Input} {s s' : State} {j j' : Running} {mode : RebuildMode}
    {applied : List (ID × ID)} {inputs secrets : List ID} (hst : Jobs.Stepped i s j s' j')
    (hfn : j.fn = .apply mode applied inputs secrets) : ValuesKept s s' := by
  refine valuesKept_of_eq ?_ hst.frame.2.2.2.2.2
  cases hst with
  | markedWorkload _ _ hdb =>
    obtain rfl := Db.markApplied_ok hdb
    rfl
  | deletedRow _ hfn' => rw [hfn] at hfn'; cases hfn'
  | _ => rfl

/-! ## Since the snapshot -/

theorem SameValue.congr {s t : State} {x y : SecretRow} (h : SameValue s t y) (heq : unapplied y = unapplied x) :
    SameValue s t x := by
  have hid : y.id = x.id := show (unapplied y).id = (unapplied x).id by rw [heq]
  have hname : y.name = x.name := show (unapplied y).name = (unapplied x).name by rw [heq]
  unfold SameValue at h
  rwa [hid, hname] at h

/-- What holds from the snapshot of the apply job on. -/
structure SinceSnapshot (s₀ : State) (mode : RebuildMode) (s : State) : Prop where
  wf : s.db.WF
  stamped : Stamped s
  host : s.host = s₀.host
  ticks : s₀.ticks ≤ s.ticks
  job : Carries (applyFn mode s₀) s
  inputs : Known s₀.db.flakeInputs s.db.flakeInputs
  secrets : Known s₀.db.secrets s.db.secrets
  values : ∀ x ∈ s₀.db.secrets, Has s.db.secrets x → SameValue s₀ s x

section SinceSnapshot

variable {s₀ s s' : State} {mode : RebuildMode}

/-- A row of `s₀` that is still there was there one step before. -/
theorem SinceSnapshot.before (h : SinceSnapshot s₀ mode s) (hst₀ : Stamped s₀)
    (hclock : StrictMono s₀.host.clock)
    (hon : SteppedOn s s') {x : SecretRow} (hx : x ∈ s₀.db.secrets) (hhas : Has s'.db.secrets x) :
    ∃ y ∈ s.db.secrets, ∃ y' ∈ s'.db.secrets, unapplied y' = unapplied y ∧ unapplied y = unapplied x := by
  obtain ⟨y', hy', heq⟩ := hhas
  have hold : y'.updatedAt < s.now := by
    rw [show y'.updatedAt = x.updatedAt from updatedAt_eq heq]
    exact lt_of_lt_of_le (hst₀.secrets x hx).1 (now_mono hclock h.host h.ticks)
  obtain ⟨y, hy, -, hsame⟩ := hon.secrets y' hy' hold
  exact ⟨y, hy, y', hy', hsame.symm, hsame.trans heq⟩

theorem SinceSnapshot.step (h : SinceSnapshot s₀ mode s) (hst₀ : Stamped s₀) (hclock : StrictMono s₀.host.clock)
    {e : Event} (hfl : s.inFlight = true) (hguard : badgesGuarded s₀ s e = true) (hs : s.step e = some s') :
    SinceSnapshot s₀ mode s' := by
  have hclock' : StrictMono s.host.clock := by
    rw [h.host]
    exact hclock
  have hon := State.step_on hclock' h.stamped hs
  have hkept : ValuesKept s s' := by
    cases e with
    | request r faults => cases hs; exact State.handle_valuesKept h.wf hclock' h.stamped hguard
    | restart =>
      cases hs
      obtain ⟨hdisk, -, -, -, jobs, hdb⟩ := s.restart_frame
      exact valuesKept_of_eq (by rw [hdb]) (by rw [hdisk]; rfl)
    | job i =>
      obtain ⟨j, t, j', hj, hst, rfl⟩ := Jobs.step_some hs
      have hvalues : ValuesKept s t := apply_step_values hst (h.job.job j hj)
      exact hvalues
  have hknown : Known s₀.db.flakeInputs s'.db.flakeInputs ∧ Known s₀.db.secrets s'.db.secrets := by
    cases e with
    | request r faults =>
      cases hs
      obtain ⟨-, hsince⟩ := State.handle_since hclock' h.stamped r faults
      exact ⟨hsince.inputs.known h.inputs, hsince.secrets.known h.secrets⟩
    | restart =>
      cases hs
      obtain ⟨-, -, -, -, jobs, hdb⟩ := s.restart_frame
      rw [hdb]
      exact ⟨h.inputs, h.secrets⟩
    | job i =>
      obtain ⟨j, t, j', hj, hst, rfl⟩ := Jobs.step_some hs
      show Known s₀.db.flakeInputs t.db.flakeInputs ∧ Known s₀.db.secrets t.db.secrets
      have hphase : s.phase = some j.phase := by
        unfold State.phase
        rw [hj]
        rfl
      unfold badgesGuarded at hguard
      rw [hphase] at hguard
      -- of the steps of a job only a mark writes a stamp
      cases hst.marks with
      | none hi hsec => rw [hi, hsec]; exact ⟨h.inputs, h.secrets⟩
      | input hp hdb =>
        rw [hp] at hguard
        rw [hdb]
        refine ⟨mark_known ?_ ?_ hguard h.inputs, h.secrets⟩
        all_goals exact fun _ => rfl
      | secret hp hdb =>
        rw [hp] at hguard
        rw [hdb]
        refine ⟨h.inputs, mark_known ?_ ?_ hguard h.secrets⟩
        all_goals exact fun _ => rfl
  refine ⟨State.step_wf h.wf hs, hon.stamped, hon.host.trans h.host, h.ticks.trans hon.ticks, h.job.step hfl hs,
    hknown.1, hknown.2, fun x hx hhas => ?_⟩
  obtain ⟨y, hy, y', hy', hsame, heq⟩ := h.before hst₀ hclock hon hx hhas
  exact (h.values x hx ⟨y, hy, heq⟩).trans ((hkept y hy y' hy' hsame).congr heq)

/-- The job that an apply request answered with a log has the slot and has yet to open the log. -/
theorem apply_started {r : Request} {faults : List Bool} {page : String} {started : Job}
    (hmode : r.applyMode = some mode) (hstart : s₀.answer r faults = .jobLog page started) :
    ∃ id, (s₀.handle r faults).busy = true ∧
      (s₀.handle r faults).job = some { row := id, fn := applyFn mode s₀, phase := .logFile } := by
  have hend := State.handle_ends (apply_ends hmode s₀) faults
  rw [hstart] at hend
  generalize s₀.handle r faults = t at hend ⊢
  generalize ha : Response.jobLog page started = a at hend
  cases hend with
  | rejected hp => subst ha; cases hp
  | launched hl => exact ⟨_, hl.busy, hl.job⟩
  | refused => cases ha
  | failed => cases ha

/-- The slot is that of the job. -/
theorem carries_started {r : Request} {faults : List Bool} {page : String} {started : Job}
    (hmode : r.applyMode = some mode) (hstart : s₀.answer r faults = .jobLog page started) :
    Carries (applyFn mode s₀) (s₀.handle r faults) := by
  obtain ⟨id, hbusy, hjob⟩ := apply_started hmode hstart
  refine ⟨fun _ => hbusy, fun j hj => ?_⟩
  rw [hjob] at hj
  cases hj
  rfl

theorem sinceSnapshot_started (hwf : s₀.db.WF) (hst₀ : Stamped s₀)
    (hclock : StrictMono s₀.host.clock) {r : Request}
    {faults : List Bool} {page : String} {started : Job} (hmode : r.applyMode = some mode)
    (hstart : s₀.answer r faults = .jobLog page started) : SinceSnapshot s₀ mode (s₀.handle r faults) := by
  obtain ⟨hst, hsince⟩ := State.handle_since hclock hst₀ r faults
  refine ⟨State.handle_wf hwf r faults, hst, hsince.host, hsince.ticks, carries_started hmode hstart,
    hsince.inputs.known (.refl _), hsince.secrets.known (.refl _), ?_⟩
  rintro x hx ⟨x', hx', heq⟩
  exact State.apply_valuesKept hmode x hx x' hx' heq

end SinceSnapshot

/-! ## Every run -/

theorem FlakeInput.not_pending {f : FlakeInput} (h : f.status = .locked) : ¬ Pending f := by
  intro hp
  rw [FlakeInput.status_pending hp] at h
  cases h

theorem SecretRow.not_pending {x : SecretRow} (h : x.status = .applied) : ¬ Pending x := by
  intro hp
  rw [SecretRow.status_pending hp] at h
  cases h

/-- A row of `t₀` stamped before `now`, and there at the end, is there in between. -/
theorem SameBefore.has {ρ : Type} [Badged ρ] [HasId ρ] {t₀ t t' : Table ρ} {now₀ now : Time} {x : ρ}
    (h : SameBefore now t t') (hx : x ∈ t') (hold : Has t₀ x)
    (hst : StampedBefore now₀ t₀) (hle : now₀ ≤ now) :
    Has t x := by
  obtain ⟨y, hy, heq⟩ := hold
  have hlt : updatedAt x < now := by
    rw [← updatedAt_eq heq]
    exact lt_of_lt_of_le (hst y hy).1 hle
  obtain ⟨z, hz, -, hsame⟩ := h x hx hlt
  exact ⟨z, hz, hsame⟩

/-- From the snapshot of an apply job on, as long as the job marks what its snapshot saw and the edits
of secrets get as far as the stamp, a badge tells the truth. -/
theorem badges_true {s₀ s : State} {r : Request} {mode : RebuildMode} {faults : List Bool} {page : String}
    {started : Job} {es : List Event} (hs₀ : s₀.Reachable) (hclock : StrictMono s₀.host.clock)
    (hmode : r.applyMode = some mode) (hstart : s₀.answer r faults = .jobLog page started)
    (hes : Runs.Along State.step (fun s e => s.inFlight = true ∧
      badgesGuarded s₀ s e = true) (s₀.handle r faults) es)
    (hrun : (s₀.handle r faults).run es = some s) : BadgesTrue s₀ (s₀.handle r faults) es s := by
  have hst₀ := hs₀.stamped hclock
  have hbegin := sinceSnapshot_started hs₀.wf hst₀ hclock hmode hstart
  have hsince : ∀ pre post t, es = pre ++ post → (s₀.handle r faults).run pre = some t →
      SinceSnapshot s₀ mode t := by
    rintro pre post t rfl hpre
    exact Runs.exec_inv (I := SinceSnapshot s₀ mode) (fun s e s' hp hI hst => hI.step hst₀ hclock hp.1 hp.2 hst)
      hes.prefix hbegin hpre
  have hfinal := hsince es [] s (List.append_nil es).symm hrun
  -- from a state in between, the run goes on to `s`
  have hrest : ∀ pre post t, es = pre ++ post → (s₀.handle r faults).run pre = some t →
      SameBefore t.now t.db.flakeInputs s.db.flakeInputs ∧ SameBefore t.now t.db.secrets s.db.secrets := by
    rintro pre post t rfl hpre
    have ht := hsince pre post t rfl hpre
    obtain ⟨v, hv, hpost⟩ := Runs.exec_append_some.1 hrun
    rw [show v = t from Option.some.inj (hv.symm.trans hpre)] at hpost
    exact State.run_sameBefore (by rw [ht.host]; exact hclock) ht.stamped hpost
  have hlater : ∀ pre post t, es = pre ++ post → (s₀.handle r faults).run pre = some t →
      s₀.now ≤ t.now := by
    intro pre post t hsplit hpre
    have ht := hsince pre post t hsplit hpre
    exact now_mono hclock ht.host ht.ticks
  refine ⟨fun f hf hlocked => ?_, fun x hx happlied => ?_, fun x hx happlied pre post t hsplit hpre => ?_⟩
  · have hwas := (hfinal.inputs f hf).resolve_left (FlakeInput.not_pending hlocked)
    refine ⟨hwas, fun pre post t hsplit hpre => ?_⟩
    exact (hrest pre post t hsplit hpre).1.has hf hwas hst₀.inputs (hlater pre post t hsplit hpre)
  · have hwas := (hfinal.secrets x hx).resolve_left (SecretRow.not_pending happlied)
    refine ⟨hwas, fun pre post t hsplit hpre => ?_⟩
    exact (hrest pre post t hsplit hpre).2.has hx hwas hst₀.secrets (hlater pre post t hsplit hpre)
  · have hwas := (hfinal.secrets x hx).resolve_left (SecretRow.not_pending happlied)
    have hthere := (hrest pre post t hsplit hpre).2.has hx hwas hst₀.secrets (hlater pre post t hsplit hpre)
    obtain ⟨y, hy, heq⟩ := hwas
    exact ((hsince pre post t hsplit hpre).values y hy (hthere.congr heq.symm)).congr heq

/-! ## An edit while the rebuild runs -/

theorem exampleHost_clock : StrictMono exampleHost.clock := fun _ _ h => Int.ofNat_lt.2 h

/-- An input is declared. -/
def createInput (name : String) : Event := req (.flakeCreate name "github:owner/repo" "")

/-- An input, about to be locked by a rebuild. -/
def inputDeclared : State := ((State.fresh exampleHost).run [createInput "extra"]).get (by decide +kernel)

/-- The input is edited while the rebuild runs. -/
def editedDuringRebuild : List Event :=
  jobSteps 3 ++ [req (.flakeSave "extra" "github:owner/other" "")] ++ jobSteps 5

/-- An input was edited while the rebuild ran. -/
def editedRebuilt : State :=
  ((inputDeclared.handle .rebuild []).run editedDuringRebuild).get (by decide +kernel)

/-- Then the rebuild has locked the old ref, and the new one is shown as locked. -/
theorem badges_false : ¬ ∀ (s₀ s : State) (r : Request) (faults : List Bool) (page : String) (started : Job)
    (es : List Event), s₀.Reachable → StrictMono s₀.host.clock → r.applyMode = some .switch →
    s₀.answer r faults = .jobLog page started →
    Runs.Along State.step (fun s _ => s.inFlight = true) (s₀.handle r faults) es → es.all Event.faultless = true →
    (s₀.handle r faults).run es = some s →
    (s.job.any fun j => j.phase == .exited && j.result == some ⟨0, false⟩) = true →
    BadgesTrue s₀ (s₀.handle r faults) es s := by
  intro hall
  have htrue := hall inputDeclared editedRebuilt .rebuild [] "system"
    ⟨1, .apply, .running, none, 1, none, none, "job-1.log", none⟩ editedDuringRebuild (State.reachable_run _)
    exampleHost_clock rfl (by decide +kernel) (by decide +kernel) (by decide +kernel) (Option.some_get _).symm
    (by decide +kernel)
  have hedited : ∃ f ∈ editedRebuilt.db.flakeInputs.rows, f.status = .locked ∧
      ∀ y ∈ inputDeclared.db.flakeInputs.rows, unapplied y ≠ unapplied f := by decide +kernel
  obtain ⟨f, hf, hlocked, hnew⟩ := hedited
  obtain ⟨y, hy, heq⟩ := (htrue.inputs f hf hlocked).was
  exact hnew y hy heq

/-- Another input is declared, and a secret, while the rebuild runs. -/
def addedDuringRebuild : List Event :=
  jobSteps 3 ++ [createInput "other", createToken] ++ jobSteps 5

/-- An input was added while the rebuild ran. -/
def addedRebuilt : State := ((inputDeclared.handle .rebuild []).run addedDuringRebuild).get (by decide +kernel)

theorem badges_true_added :
    BadgesTrue inputDeclared (inputDeclared.handle .rebuild []) addedDuringRebuild addedRebuilt := by
  have hstart : inputDeclared.answer .rebuild [] =
      .jobLog "system" ⟨1, .apply, .running, none, 1, none, none, "job-1.log", none⟩ := by decide +kernel
  exact badges_true (State.reachable_run _) exampleHost_clock rfl hstart (by decide +kernel) (Option.some_get _).symm

end Nixbox
