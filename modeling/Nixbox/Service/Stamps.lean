/-
The timestamps behind the badges of inputs and secrets. Every row is stamped with readings of the
clock already taken, so a row a request writes is pending: its stamp is later than any mark.
-/
import Nixbox.Service.Frames
import Mathlib.Data.Int.ConditionallyCompleteOrder
import Mathlib.Order.ConditionallyCompleteLattice.Basic

namespace Nixbox

open Effect Prog Store Server Keyed
open Nix hiding FlakeInput

/-! ## Rows with a badge -/

/-- A row with the time of its last edit and of its last mark. `unapplied` forgets the mark. -/
class Badged (ρ : Type) where
  updatedAt : ρ → Time
  appliedAt : ρ → Option Time
  unapplied : ρ → ρ
  updatedAt_unapplied : ∀ r, updatedAt (unapplied r) = updatedAt r

export Badged (updatedAt appliedAt unapplied)

instance : Badged FlakeInput where
  updatedAt f := f.updatedAt
  appliedAt f := f.appliedAt
  unapplied f := { f with appliedAt := none }
  updatedAt_unapplied _ := rfl

instance : Badged SecretRow where
  updatedAt s := s.updatedAt
  appliedAt s := s.appliedAt
  unapplied s := { s with appliedAt := none }
  updatedAt_unapplied _ := rfl

section Rows

variable {ρ : Type} [Badged ρ]

/-- Not marked since the last edit. -/
def Pending (r : ρ) : Prop := ∀ a, appliedAt r = some a → a < updatedAt r

theorem FlakeInput.status_pending {f : FlakeInput} (h : Pending f) : f.status = .pending := by
  unfold FlakeInput.status
  cases ha : f.appliedAt with
  | none => rfl
  | some a => exact if_pos (h a ha)

theorem SecretRow.status_pending {s : SecretRow} (h : Pending s) : s.status = .pending := by
  unfold SecretRow.status
  cases ha : s.appliedAt with
  | none => rfl
  | some a => exact if_pos (h a ha)

theorem updatedAt_eq {x y : ρ} (h : unapplied x = unapplied y) : updatedAt x = updatedAt y := by
  rw [← Badged.updatedAt_unapplied x, h, Badged.updatedAt_unapplied]

variable [HasId ρ] {t t' t'' : Table ρ} {id : ID} {now now' : Time}

/-- The stamps of the rows are earlier than `now`. -/
def StampedBefore (now : Time) (t : Table ρ) : Prop :=
  ∀ r ∈ t, updatedAt r < now ∧ ∀ a, appliedAt r = some a → a < now

/-- The rows of `t'` are rows of `t`, or were written from `now` on and are pending. -/
def WrittenSince (now : Time) (t t' : Table ρ) : Prop := ∀ r ∈ t', r ∈ t ∨ (now ≤ updatedAt r ∧ Pending r)

theorem StampedBefore.mono (h : StampedBefore now t) (hle : now ≤ now') : StampedBefore now' t :=
  fun r hr => ⟨lt_of_lt_of_le (h r hr).1 hle, fun a ha => lt_of_lt_of_le ((h r hr).2 a ha) hle⟩

theorem WrittenSince.refl (now : Time) (t : Table ρ) : WrittenSince now t t := fun _ hr => .inl hr

theorem WrittenSince.trans (h : WrittenSince now t t') (h' : WrittenSince now' t' t'') (hle : now ≤ now') :
    WrittenSince now t t'' := by
  intro r hr
  rcases h' r hr with hr | ⟨hnew, hp⟩
  · exact h r hr
  · exact .inr ⟨hle.trans hnew, hp⟩

/-- A statement that stamps with `now`. -/
structure Stamps (now : Time) (t t' : Table ρ) : Prop where
  written : WrittenSince now t t'
  before : ∀ {now'}, now < now' → StampedBefore now' t'

theorem stamps_refl (h : StampedBefore now t) : Stamps now t t := ⟨.refl now t, fun hlt => h.mono (le_of_lt hlt)⟩

theorem stamps_insert {mk : ID → ρ} {hmk : ∀ i, rowid (mk i) = i} (h : StampedBefore now t)
    (hup : ∀ i, updatedAt (mk i) = now) (hnone : ∀ i, appliedAt (mk i) = none) :
    Stamps now t (t.insert mk hmk) where
  written r hr := by
    rcases Table.mem_insert.1 hr with hr | rfl
    · exact .inl hr
    · exact .inr ⟨le_of_eq (hup _).symm, fun a ha => by rw [hnone] at ha; cases ha⟩
  before hlt r hr := by
    rcases Table.mem_insert.1 hr with hr | rfl
    · exact h.mono (le_of_lt hlt) r hr
    · exact ⟨by rw [hup]; exact hlt, fun a ha => by rw [hnone] at ha; cases ha⟩

theorem stamps_modify {f : ρ → ρ} (h : StampedBefore now t) (hf : ∀ r, rowid (f r) = rowid r)
    (hup : ∀ r, updatedAt (f r) = now) (happ : ∀ r, appliedAt (f r) = appliedAt r) :
    Stamps now t (t.modify id f hf) where
  written r hr := by
    rcases Table.mem_modify.1 hr with ⟨hr, -⟩ | ⟨x, hx, -, rfl⟩
    · exact .inl hr
    · refine .inr ⟨le_of_eq (hup x).symm, fun a ha => ?_⟩
      rw [happ] at ha
      rw [hup]
      exact (h x hx).2 a ha
  before hlt r hr := by
    rcases Table.mem_modify.1 hr with ⟨hr, -⟩ | ⟨x, hx, -, rfl⟩
    · exact h.mono (le_of_lt hlt) r hr
    · refine ⟨by rw [hup]; exact hlt, fun a ha => ?_⟩
      rw [happ] at ha
      exact ((h x hx).2 a ha).trans hlt

theorem stamps_deleteWhere {p : ρ → Bool} (h : StampedBefore now t) : Stamps now t (t.deleteWhere p) where
  written _ hr := .inl (Table.mem_deleteWhere.1 hr).1
  before hlt r hr := h.mono (le_of_lt hlt) r (Table.mem_deleteWhere.1 hr).1

end Rows

/-! ## Every statement -/

theorem Write.run_stamps {α : Type} {w : Write α} {now : Time} {db db' : Db} {a : α}
    (hi : StampedBefore now db.flakeInputs) (hs : StampedBefore now db.secrets)
    (h : w.run now db = .ok (a, db')) :
    Stamps now db.flakeInputs db'.flakeInputs ∧ Stamps now db.secrets db'.secrets := by
  have hrows := Write.run_frame h
  have hsame : db'.flakeInputs = db.flakeInputs → Stamps now db.flakeInputs db'.flakeInputs :=
    fun heq => by rw [heq]; exact stamps_refl hi
  have hsame' : db'.secrets = db.secrets → Stamps now db.secrets db'.secrets :=
    fun heq => by rw [heq]; exact stamps_refl hs
  cases w with
  | createFlakeInput name url follows =>
    refine ⟨?_, hsame' (hrows.secrets nofun).1⟩
    change db.createFlakeInput name url follows now = _ at h
    obtain ⟨-, rfl, rfl⟩ := Db.createFlakeInput_ok h
    show Stamps now _ (Table.insert db.flakeInputs (fun id => ⟨id, name, url, follows, now, now, none⟩) fun _ =>
      rfl)
    exact stamps_insert hi (fun _ => rfl) fun _ => rfl
  | updateFlakeInput =>
    cases h
    refine ⟨stamps_modify hi ?_ ?_ ?_, stamps_refl hs⟩
    all_goals exact fun _ => rfl
  | deleteFlakeInput =>
    cases h
    exact ⟨stamps_deleteWhere hi, stamps_refl hs⟩
  | createSecret name owner group mode wids =>
    refine ⟨hsame (hrows.inputs nofun), ?_⟩
    change db.createSecret name owner group mode wids now = _ at h
    obtain ⟨-, rfl, hrep⟩ := Db.createSecret_ok h
    -- the mounts that go with the row have no stamps
    obtain ⟨m, rfl⟩ := Db.replaceMounts_frame hrep
    show Stamps now _ (Table.insert db.secrets (fun id => ⟨id, name, owner, group, mode, now, now, none⟩)
      fun _ => rfl)
    exact stamps_insert hs (fun _ => rfl) fun _ => rfl
  | updateSecret id owner group mode wids =>
    refine ⟨hsame (hrows.inputs nofun), ?_⟩
    obtain ⟨m, rfl⟩ := Db.replaceMounts_frame (Db.unit_ok h)
    refine stamps_modify hs ?_ ?_ ?_
    all_goals exact fun _ => rfl
  | insertMountOrIgnore =>
    obtain ⟨m, rfl⟩ := Db.insertMountOrIgnore_frame h
    exact ⟨stamps_refl hi, stamps_refl hs⟩
  | touchSecret =>
    cases h
    refine ⟨stamps_refl hi, stamps_modify hs ?_ ?_ ?_⟩
    all_goals exact fun _ => rfl
  | deleteMount =>
    cases h
    exact ⟨stamps_refl hi, stamps_refl hs⟩
  | deleteSecret =>
    cases h
    exact ⟨stamps_refl hi, stamps_deleteWhere hs⟩
  -- the other statements write neither table
  | _ => exact ⟨hsame (hrows.inputs nofun), hsame' (hrows.secrets nofun).1⟩

/-! ## Every request -/

/-- The reading of the clock the next statement stamps with. -/
def State.now (s : State) : Time := s.host.clock s.ticks

/-- The inputs and secrets carry stamps already taken. -/
structure Stamped (s : State) : Prop where
  inputs : StampedBefore s.now s.db.flakeInputs
  secrets : StampedBefore s.now s.db.secrets

/-- From `s` to `s'` time has gone on, and what was written since is pending. -/
structure Since (s s' : State) : Prop where
  host : s'.host = s.host
  ticks : s.ticks ≤ s'.ticks
  inputs : WrittenSince s.now s.db.flakeInputs s'.db.flakeInputs
  secrets : WrittenSince s.now s.db.secrets s'.db.secrets

section Clock

variable {s s' s'' : State}

theorem now_mono (hclock : StrictMono s.host.clock) (hhost : s'.host = s.host) (h : s.ticks ≤ s'.ticks) :
    s.now ≤ s'.now := by
  unfold State.now
  rw [hhost]
  exact hclock.monotone h

theorem now_lt (hclock : StrictMono s.host.clock) (hhost : s'.host = s.host) (h : s'.ticks = s.ticks + 1) :
    s.now < s'.now := by
  unfold State.now
  rw [hhost, h]
  exact hclock (Nat.lt_succ_self _)

theorem Since.refl (s : State) : Since s s := ⟨rfl, Nat.le_refl _, .refl _ _, .refl _ _⟩

theorem Since.trans (hclock : StrictMono s.host.clock) (h : Since s s') (h' : Since s' s'') : Since s s'' :=
  have hle : s.now ≤ s'.now := now_mono hclock h.host h.ticks
  ⟨h'.host.trans h.host, h.ticks.trans h'.ticks, h.inputs.trans h'.inputs hle, h.secrets.trans h'.secrets hle⟩

theorem exec_since {β : Type} (op : Op β) (hclock : StrictMono s.host.clock) (h : Stamped s) :
    Stamped (s.exec op).2 ∧ Since s (s.exec op).2 := by
  -- a call that takes at most a reading
  have hread : ∀ t : State, t.host = s.host → s.ticks ≤ t.ticks → t.db = s.db → Stamped t ∧ Since s t := by
    intro t hhost hticks hdb
    have hle : s.now ≤ t.now := now_mono hclock hhost hticks
    refine ⟨⟨?_, ?_⟩, hhost, hticks, ?_, ?_⟩ <;> rw [hdb]
    · exact h.inputs.mono hle
    · exact h.secrets.mono hle
    · exact .refl _ _
    · exact .refl _ _
  cases op with
  | write w =>
    obtain ⟨db, hs, hdb⟩ := s.write_cases w
    show Stamped (s.write w).2 ∧ Since s (s.write w).2
    rw [hs]
    rcases hdb with rfl | ⟨a, hrun⟩
    · exact hread _ rfl (Nat.le_succ _) rfl
    · obtain ⟨hi, hsec⟩ := Write.run_stamps h.inputs h.secrets hrun
      have hlt : s.now < State.now { s with db := db, ticks := s.ticks + 1 } := now_lt hclock rfl rfl
      exact ⟨⟨hi.before hlt, hsec.before hlt⟩, rfl, Nat.le_succ _, hi.written, hsec.written⟩
  | encrypt => exact hread _ rfl (Nat.le_succ _) rfl
  | writeSecret file ct =>
    show Stamped (s.writeSecret file ct).2 ∧ Since s (s.writeSecret file ct).2
    rcases s.writeSecret_cases file ct with hw | hw
    · rw [hw]
      exact hread _ rfl (Nat.le_refl _) rfl
    · rw [hw]
      exact hread _ rfl (Nat.le_refl _) rfl
  | _ => exact hread _ rfl (Nat.le_refl _) rfl

/-- What a request writes of inputs and secrets is pending. -/
theorem State.handle_since (hclock : StrictMono s.host.clock) (h : Stamped s) (r : Request) (faults : List Bool) :
    Stamped (s.handle r faults) ∧ Since s (s.handle r faults) := by
  refine (ends_of_calls (I := fun t : State => Stamped t ∧ Since s t) (fun _ op t ht => ?_) (serve r)
    ⟨h, .refl s⟩).runWith faults
  have hclock' : StrictMono t.host.clock := by
    rw [ht.2.host]
    exact hclock
  obtain ⟨ht', hsince⟩ := exec_since op hclock' ht.1
  exact ⟨ht', ht.2.trans hclock hsince⟩

end Clock

/-! ## Every step -/

/-- A row of `t'` last edited before `now` was in `t`, marked or not. -/
def SameBefore {ρ : Type} [Badged ρ] [HasId ρ] (now : Time) (t t' : Table ρ) : Prop :=
  ∀ r ∈ t', updatedAt r < now → ∃ x ∈ t, rowid x = rowid r ∧ unapplied x = unapplied r

section Rows

variable {ρ : Type} [Badged ρ] [HasId ρ] {t t' : Table ρ} {id : ID} {now : Time}

theorem SameBefore.refl (now : Time) (t : Table ρ) : SameBefore now t t := fun r hr _ => ⟨r, hr, rfl, rfl⟩

theorem WrittenSince.sameBefore (h : WrittenSince now t t') : SameBefore now t t' := by
  intro r hr hlt
  rcases h r hr with hr | ⟨hle, -⟩
  · exact ⟨r, hr, rfl, rfl⟩
  · exact absurd hlt (not_lt_of_ge hle)

theorem sameBefore_trans {t'' : Table ρ} {now' : Time} (h : SameBefore now t t') (h' : SameBefore now' t' t'')
    (hle : now ≤ now') : SameBefore now t t'' := by
  intro r hr hlt
  obtain ⟨x, hx, hid, hsame⟩ := h' r hr (lt_of_lt_of_le hlt hle)
  obtain ⟨y, hy, hid', hsame'⟩ := h x hx (by rw [updatedAt_eq hsame]; exact hlt)
  exact ⟨y, hy, hid'.trans hid, hsame'.trans hsame⟩

/-- Marking writes nothing but the mark. -/
theorem mark_sameBefore {f : ρ → ρ} (hf : ∀ r, rowid (f r) = rowid r)
    (hsame : ∀ r, unapplied (f r) = unapplied r) :
    SameBefore now t (t.modify id f hf) := by
  intro r hr _
  rcases Table.mem_modify.1 hr with ⟨hr, -⟩ | ⟨x, hx, -, rfl⟩
  · exact ⟨r, hr, rfl, rfl⟩
  · exact ⟨x, hx, (hf x).symm, (hsame x).symm⟩

theorem mark_stamped {now' : Time} {f : ρ → ρ} (hf : ∀ r, rowid (f r) = rowid r)
    (hsame : ∀ r, unapplied (f r) = unapplied r) (happ : ∀ r, appliedAt (f r) = some now)
    (h : StampedBefore now t) (hlt : now < now') : StampedBefore now' (t.modify id f hf) := by
  intro r hr
  rcases Table.mem_modify.1 hr with ⟨hr, -⟩ | ⟨x, hx, -, rfl⟩
  · exact h.mono (le_of_lt hlt) r hr
  · refine ⟨?_, fun a ha => ?_⟩
    · rw [updatedAt_eq (hsame x)]
      exact ((h x hx).1).trans hlt
    · rw [happ] at ha
      cases ha
      exact hlt

end Rows

/-- A step of a job marks an input, or a secret, or leaves both tables. -/
inductive Marks (s s' : State) (j : Running) : Prop
  | none (hi : s'.db.flakeInputs = s.db.flakeInputs) (hs : s'.db.secrets = s.db.secrets)
    (hticks : s.ticks ≤ s'.ticks)
  | input {id inputs secrets} (hphase : j.phase = .mark [] (id :: inputs) secrets)
    (hdb : s'.db = s.db.markFlakeInputApplied id s.now) (hticks : s'.ticks = s.ticks + 1)
  | secret {id secrets} (hphase : j.phase = .mark [] [] (id :: secrets))
    (hdb : s'.db = s.db.markSecretApplied id s.now) (hticks : s'.ticks = s.ticks + 1)

theorem Jobs.Stepped.marks {i : Jobs.Input} {s s' : State} {j j' : Running} (h : Jobs.Stepped i s j s' j') :
    Marks s s' j := by
  cases h with
  | markedWorkload _ _ hdb =>
    obtain rfl := Db.markApplied_ok hdb
    exact .none rfl rfl (Nat.le_refl _)
  | markedInput hphase => exact .input hphase rfl rfl
  | markedSecret hphase => exact .secret hphase rfl rfl
  | deletedRow _ _ hdb =>
    obtain rfl := Db.deleteWorkload_ok hdb
    exact .none rfl rfl (Nat.le_refl _)
  | finished => exact .none rfl rfl (Nat.le_succ _)
  | _ => exact .none rfl rfl (Nat.le_refl _)

theorem State.restart_ticks (s : State) : s.ticks ≤ s.restart.ticks := by
  unfold State.restart
  dsimp only
  generalize s.db.runningJobs = l
  have hfold : ∀ (l : List Job) (t : State), t.ticks ≤ (l.foldl State.recover t).ticks := by
    intro l
    induction l with
    | nil => intro t; exact Nat.le_refl _
    | cons a l ih => intro t; exact (Nat.le_succ _).trans (ih (t.recover a))
  exact hfold l { s with disk := s.disk.init, busy := false, job := none }

/-- One step further: stamps stay in the past, and rows not edited since are the rows that were there. -/
structure SteppedOn (s s' : State) : Prop where
  stamped : Stamped s'
  host : s'.host = s.host
  ticks : s.ticks ≤ s'.ticks
  inputs : SameBefore s.now s.db.flakeInputs s'.db.flakeInputs
  secrets : SameBefore s.now s.db.secrets s'.db.secrets

theorem steppedOn_of_eq {s s' : State} (hclock : StrictMono s.host.clock) (h : Stamped s) (hhost : s'.host = s.host)
    (hticks : s.ticks ≤ s'.ticks) (hi : s'.db.flakeInputs = s.db.flakeInputs) (hs : s'.db.secrets = s.db.secrets) :
    SteppedOn s s' := by
  have hle : s.now ≤ s'.now := now_mono hclock hhost hticks
  refine ⟨⟨?_, ?_⟩, hhost, hticks, ?_, ?_⟩
  · rw [hi]
    exact h.inputs.mono hle
  · rw [hs]
    exact h.secrets.mono hle
  · rw [hi]
    exact .refl _ _
  · rw [hs]
    exact .refl _ _

theorem State.step_on {s s' : State} {e : Event} (hclock : StrictMono s.host.clock) (h : Stamped s)
    (hs : s.step e = some s') : SteppedOn s s' := by
  cases e with
  | request r faults =>
    cases hs
    obtain ⟨h', hsince⟩ := State.handle_since hclock h r faults
    exact ⟨h', hsince.host, hsince.ticks, hsince.inputs.sameBefore, hsince.secrets.sameBefore⟩
  | restart =>
    cases hs
    obtain ⟨-, -, -, hhost, jobs, hdb⟩ := s.restart_frame
    refine steppedOn_of_eq hclock h hhost s.restart_ticks ?_ ?_ <;> rw [hdb]
  | job i =>
    obtain ⟨j, t, j', -, hst, rfl⟩ := Jobs.step_some hs
    have hhost : t.host = s.host := hst.frame.2.2.1
    cases hst.marks with
    | none hi hsec hticks => exact steppedOn_of_eq hclock h hhost hticks hi hsec
    | input _ hdb hticks =>
      -- the mark is stamped with a reading of the clock after all the others
      have hlt : s.now < t.now := now_lt hclock hhost hticks
      have hle : s.ticks ≤ t.ticks := by omega
      refine ⟨⟨?_, ?_⟩, hhost, hle, ?_, ?_⟩
      · show StampedBefore t.now t.db.flakeInputs
        rw [hdb]
        refine mark_stamped ?_ ?_ ?_ h.inputs hlt
        all_goals exact fun _ => rfl
      · show StampedBefore t.now t.db.secrets
        rw [hdb]
        exact h.secrets.mono (le_of_lt hlt)
      · show SameBefore s.now s.db.flakeInputs t.db.flakeInputs
        rw [hdb]
        refine mark_sameBefore ?_ ?_
        all_goals exact fun _ => rfl
      · show SameBefore s.now s.db.secrets t.db.secrets
        rw [hdb]
        exact .refl _ _
    | secret _ hdb hticks =>
      have hlt : s.now < t.now := now_lt hclock hhost hticks
      have hle : s.ticks ≤ t.ticks := by omega
      refine ⟨⟨?_, ?_⟩, hhost, hle, ?_, ?_⟩
      · show StampedBefore t.now t.db.flakeInputs
        rw [hdb]
        exact h.inputs.mono (le_of_lt hlt)
      · show StampedBefore t.now t.db.secrets
        rw [hdb]
        refine mark_stamped ?_ ?_ ?_ h.secrets hlt
        all_goals exact fun _ => rfl
      · show SameBefore s.now s.db.flakeInputs t.db.flakeInputs
        rw [hdb]
        exact .refl _ _
      · show SameBefore s.now s.db.secrets t.db.secrets
        rw [hdb]
        refine mark_sameBefore ?_ ?_
        all_goals exact fun _ => rfl

/-! ## Every run -/

/-- The host stays, and the stamps are in the past. -/
theorem State.run_stamped {t s : State} {es : List Event} (hclock : StrictMono t.host.clock) (h : Stamped t)
    (hs : t.run es = some s) : Stamped s ∧ s.host = t.host ∧ t.ticks ≤ s.ticks := by
  refine Runs.exec_inv_all (I := fun s : State => Stamped s ∧ s.host = t.host ∧ t.ticks ≤ s.ticks)
    (fun s e s' hI hst => ?_) ⟨h, rfl, Nat.le_refl _⟩ hs
  have hon := State.step_on (by rw [hI.2.1]; exact hclock) hI.1 hst
  exact ⟨hon.stamped, hon.host.trans hI.2.1, hI.2.2.trans hon.ticks⟩

theorem State.Reachable.stamped {s : State} (h : s.Reachable) (hclock : StrictMono s.host.clock) : Stamped s := by
  obtain ⟨host, es, hs⟩ := h
  have hhost : s.host = host := by
    refine Runs.exec_inv_all (I := fun s : State => s.host = host) (fun s e s' hI hst => ?_) rfl hs
    cases e with
    | request r faults => cases hst; exact (s.handle_frame r faults).host.trans hI
    | restart => cases hst; exact s.restart_frame.2.2.2.1.trans hI
    | job i =>
      obtain ⟨j, t, j', -, hstep, rfl⟩ := Jobs.step_some hst
      exact hstep.frame.2.2.1.trans hI
  have hinit : Stamped (fresh host) :=
    ⟨fun _ h => absurd h Table.not_mem_empty, fun _ h => absurd h Table.not_mem_empty⟩
  exact (State.run_stamped (by rw [← hhost]; exact hclock) hinit hs).1

/-- A row not edited since `t` was there in `t`. -/
theorem State.run_sameBefore {t s : State} {es : List Event} (hclock : StrictMono t.host.clock) (h : Stamped t)
    (hs : t.run es = some s) :
    SameBefore t.now t.db.flakeInputs s.db.flakeInputs ∧ SameBefore t.now t.db.secrets s.db.secrets := by
  have hrun : Stamped s ∧ s.host = t.host ∧ t.ticks ≤ s.ticks ∧
      SameBefore t.now t.db.flakeInputs s.db.flakeInputs ∧ SameBefore t.now t.db.secrets s.db.secrets := by
    refine Runs.exec_inv_all (I := fun s : State => Stamped s ∧ s.host = t.host ∧ t.ticks ≤ s.ticks ∧
      SameBefore t.now t.db.flakeInputs s.db.flakeInputs ∧ SameBefore t.now t.db.secrets s.db.secrets)
      (fun s e s' hI hst => ?_) ⟨h, rfl, Nat.le_refl _, .refl _ _, .refl _ _⟩ hs
    obtain ⟨hst', hhost, hticks, hi, hsec⟩ := hI
    have hon := State.step_on (by rw [hhost]; exact hclock) hst' hst
    have hle : t.now ≤ s.now := now_mono hclock hhost hticks
    refine ⟨hon.stamped, hon.host.trans hhost, hticks.trans hon.ticks, ?_, ?_⟩
    · exact sameBefore_trans hi hon.inputs hle
    · exact sameBefore_trans hsec hon.secrets hle
  exact hrun.2.2.2

end Nixbox
