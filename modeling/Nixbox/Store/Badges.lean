/-
The badge and the mounts of one secret, and the badge of one input, over any sequence of calls on it:
what the row shows is what the calls that went through came to.
-/
import Nixbox.Lib.Stamping
import Nixbox.Store.Mounts
import Nixbox.Store.Transactions
import Mathlib.Data.Finset.Dedup
import Mathlib.Data.Finset.Erase
import Mathlib.Data.Finset.Insert

namespace Nixbox.Store

open Effect Prog Sql Keyed Runs

/-! ## The methods on inputs -/

namespace Db

/-- `FlakeInputByID`. -/
def flakeInputByID (db : Db) (id : ID) : Except Err FlakeInput :=
  match db.flakeInputs.find? id with
  | some f => .ok f
  | none => .error .notFound

end Db

namespace Method

/-- `CreateFlakeInput`. -/
def createFlakeInput (name url : String) (followsNixpkgs : Bool) (now : Time) : Call FlakeInput := do
  let id ← insert fun db => db.createFlakeInput name url followsNixpkgs now
  Sql.call (.query fun db => db.flakeInputByID id)

/-- `UpdateFlakeInput`. -/
def updateFlakeInput (id : ID) (url : String) (followsNixpkgs : Bool) (now : Time) : Call Unit :=
  update fun db => db.updateFlakeInput id url followsNixpkgs now

/-- `MarkFlakeInputApplied`. -/
def markFlakeInputApplied (id : ID) (now : Time) : Call Unit := update fun db => db.markFlakeInputApplied id now

/-- What a method answers when no statement of it fails. -/
def answer (x : Call α) (db : Db) : Except Err α := (Prog.run x.run (Conn.open_ db)).1

/-- The database it leaves then. -/
def after (x : Call α) (db : Db) : Db := (Prog.run x.run (Conn.open_ db)).2.committed

/-- No constraint refuses it. -/
def accepted (x : Call α) (db : Db) : Bool := (answer x db).isOk

end Method

section Answers

open Method

variable {α : Type} {db : Db} {now : Time}

/-- A method that is one statement or one transaction does what it means, or is refused. -/
theorem accepted_cases {x : Method.Call α} {m : StateT Db (Except Err) α}
    (h : Ends (AllOrNothing m (Conn.open_ db)) x.run (Conn.open_ db)) :
    (accepted x db = false ∧ after x db = db) ∨
      ∃ a, answer x db = .ok a ∧ accepted x db = true ∧ m.run db = .ok (a, after x db) := by
  have hend := h.runWith []
  rw [runWith_nil] at hend
  rcases hend with ⟨hc, e, he⟩ | ⟨a, d, hd, ha, hc⟩
  · exact .inl ⟨congrArg Except.isOk he, congrArg Conn.committed hc⟩
  · have hafter : after x db = d := congrArg Conn.committed hc
    refine .inr ⟨a, ha, congrArg Except.isOk ha, ?_⟩
    rw [hafter]
    exact hd

theorem updateSecret_cases (db : Db) (id : ID) (owner group mode : String) (workloadIDs : List ID) (now : Time) :
    let x := Method.updateSecret id owner group mode workloadIDs now
    (accepted x db = false ∧ after x db = db) ∨
      (accepted x db = true ∧ db.updateSecret id owner group mode workloadIDs now = .ok (after x db)) := by
  intro x
  rcases accepted_cases (transaction_allOrNothing updateSecret_means rfl) with h | ⟨u, -, hok, hm⟩
  · exact .inl h
  · refine .inr ⟨hok, ?_⟩
    exact Db.unit_ok hm

theorem run_insert (f : Db → Except Err (α × Db)) : Prog.run (Method.insert f).run (Conn.open_ db) =
    match f db with
    | .ok (a, d) => (.ok a, ⟨d, none, 1⟩)
    | .error e => (.error e, Conn.open_ db) := by
  show Conn.run (Conn.open_ db) (Sql.Op.exec f) = _
  unfold Conn.run
  dsimp only [Conn.open_, Option.getD_none]
  cases f db with
  | error e => rfl
  | ok r => rfl

/-- The mount is written or refused; a written one that changed something stamps the secret. -/
theorem mount_cases (db : Db) (f : Db → Except Err (Nat × Db)) (secretID : ID) (now : Time) :
    let x : Method.Call Unit := do let n ← Method.insert f; Method.touchOnChange n secretID now
    (accepted x db = false ∧ after x db = db) ∨ (accepted x db = true ∧ ∃ n db', f db = .ok (n, db') ∧
      after x db = if n = 0 then db' else db'.touchSecret secretID now) := by
  intro x
  unfold accepted answer after x
  rw [run_exceptT_bind, run_insert]
  cases f db with
  | error e => exact .inl ⟨rfl, rfl⟩
  | ok r =>
    obtain ⟨n, d⟩ := r
    refine .inr ⟨?_, n, d, rfl, ?_⟩ <;> dsimp only <;> unfold Method.touchOnChange <;> split <;> rfl

/-- A query outside a transaction. -/
theorem run_query (f : Db → Except Err α) {c : Conn Db} (hc : c.tx = none) :
    Prog.run (Sql.call (.query f)).run c = (f c.committed, c) := by
  show (f (c.tx.getD c.committed), c) = _
  rw [hc, Option.getD_none]

theorem run_secretByID (id : ID) {c : Conn Db} (hc : c.tx = none) : Prog.run (Method.secretByID id).run c =
    match c.committed.secretRowByID id with
    | .ok row => (.ok { row with workloadIDs := c.committed.mountsOf row.id }, c)
    | .error e => (.error e, c) := by
  unfold Method.secretByID
  rw [run_exceptT_bind, run_query _ hc]
  cases c.committed.secretRowByID id with
  | error e => rfl
  | ok row =>
    dsimp only
    rw [run_exceptT_bind, run_query _ hc]
    rfl

theorem secretRowByID_ok {id : ID} {row : SecretRow} :
    db.secretRowByID id = .ok row ↔ db.secrets.find? id = some row := by
  unfold Db.secretRowByID
  cases db.secrets.find? id with
  | none => exact ⟨nofun, nofun⟩
  | some x => exact ⟨fun h => by cases h; rfl, fun h => by cases h; rfl⟩

/-- A method that is accepted and then reads back. -/
theorem run_then {β : Type} {x : Method.Call α} {k : α → Method.Call β} {m : StateT Db (Except Err) α} {b : β}
    (hx : Ends (AllOrNothing m (Conn.open_ db)) x.run (Conn.open_ db)) (h : answer (x >>= k) db = .ok b) :
    ∃ a d, m.run db = .ok (a, d) ∧ Prog.run (x >>= k).run (Conn.open_ db) =
      Prog.run (k a).run ⟨d, none, 1⟩ := by
  have hend := hx.runWith []
  rw [runWith_nil] at hend
  unfold answer at h
  rw [run_exceptT_bind] at h ⊢
  rcases hr : Prog.run x.run (Conn.open_ db) with ⟨r, c⟩
  rw [hr] at h hend
  rcases hend with ⟨-, e, he⟩ | ⟨a, d, hd, ha, hc⟩
  · dsimp only at he
    rw [he] at h
    exact nomatch h
  · dsimp only at ha hc
    rw [ha, hc]
    exact ⟨a, d, hd, rfl⟩

/-- What is read back is the row with the id it got. -/
theorem answer_createSecret {name owner group mode : String} {wids : List ID} {sec : Secret}
    (h : answer (Method.createSecret name owner group mode wids now) db = .ok sec) :
    db.createSecret name owner group mode wids now =
      .ok (sec.id, after (Method.createSecret name owner group mode wids now) db) := by
  obtain ⟨id, d, hd, hrun⟩ := run_then (transaction_allOrNothing createSecret_means rfl) h
  change db.createSecret name owner group mode wids now = .ok (id, d) at hd
  rw [run_secretByID id rfl] at hrun
  change (Prog.run (Method.createSecret name owner group mode wids now).run (Conn.open_ db)).1 = _ at h
  unfold after
  change Prog.run (Method.createSecret name owner group mode wids now).run (Conn.open_ db) = _ at hrun
  rw [hrun] at h ⊢
  cases hrow : d.secretRowByID id with
  | error e => rw [hrow] at h; exact nomatch h
  | ok row =>
    rw [hrow] at h
    cases h
    have hid : row.id = id := (Table.find?_eq_some.1 (secretRowByID_ok.1 hrow)).2
    rw [hd, hid]

end Answers

/-! ## Stamps of rows -/

/-- The two times of a secret. -/
def SecretRow.stamp (s : SecretRow) : Stamp Time := ⟨s.updatedAt, s.appliedAt⟩

/-- The two times of an input. -/
def FlakeInput.stamp (f : FlakeInput) : Stamp Time := ⟨f.updatedAt, f.appliedAt⟩

theorem SecretRow.status_applied_iff {s : SecretRow} : s.status = .applied ↔ s.stamp.Fresh := by
  unfold SecretRow.status Stamp.Fresh SecretRow.stamp
  cases s.appliedAt with
  | none => simp
  | some t => by_cases ht : t < s.updatedAt <;> simp [ht, not_le.2, not_lt.1]

theorem FlakeInput.status_locked_iff {f : FlakeInput} : f.status = .locked ↔ f.stamp.Fresh := by
  unfold FlakeInput.status Stamp.Fresh FlakeInput.stamp
  cases f.appliedAt with
  | none => simp
  | some t => by_cases ht : t < f.updatedAt <;> simp [ht, not_le.2, not_lt.1]

section Rows

variable {ρ : Type} [HasId ρ] {t : Table ρ} {id : ID} {f : ρ → ρ}

/-- The stamp of the row with that id. -/
def stampAt (stamp : ρ → Stamp Time) (t : Table ρ) (id : ID) : Stamp Time := (t.find? id).elim ⟨0, none⟩ stamp

theorem stampAt_modify {stamp : ρ → Stamp Time} {g : Stamp Time → Stamp Time} (h : (t.find? id).isSome)
    (hf : ∀ r, rowid (f r) = rowid r) (hg : ∀ r, stamp (f r) = g (stamp r)) :
    stampAt stamp (t.modify id f hf) id = g (stampAt stamp t id) := by
  obtain ⟨r, hr⟩ := Option.isSome_iff_exists.1 h
  unfold stampAt
  rw [Table.find?_modify_self, hr]
  exact hg r

end Rows

/-! ## Calls on one secret -/

/-- The calls on a secret there is. -/
inductive SecretCall
  | update (owner group mode : String) (workloadIDs : List ID)
  | addMount (workloadID : ID)
  | removeMount (workloadID : ID)
  | touch
  | markApplied
  deriving DecidableEq, Repr

namespace SecretCall

/-- What the call is for the secret `id`. -/
def op (id : ID) : SecretCall → Operation
  | update owner group mode workloadIDs => .updateSecret id owner group mode workloadIDs
  | addMount workloadID => .addSecretMount id workloadID
  | removeMount workloadID => .removeSecretMount id workloadID
  | touch => .touchSecret id
  | markApplied => .markSecretApplied id

/-- The mounts after the call: replaced, with one more, with one less, or as before. -/
def mounts (c : SecretCall) (S : Finset ID) : Finset ID :=
  match c with
  | update _ _ _ workloadIDs => workloadIDs.toFinset
  | addMount workloadID => insert workloadID S
  | removeMount workloadID => S.erase workloadID
  | touch | markApplied => S

/-- The call changes what a rebuild deploys, or tells of a change: a mount that is there already is not
added. -/
def Changes (c : SecretCall) (S : Finset ID) : Prop :=
  match c with
  | update .. | touch => True
  | addMount _ | removeMount _ => c.mounts S ≠ S
  | markApplied => False

/-- The stamp of the secret after the call. -/
def restamp (c : SecretCall) (S : Finset ID) (now : Time) (st : Stamp Time) : Stamp Time :=
  match c with
  | update .. | touch => st.edit now
  | addMount w => if w ∈ S then st else st.edit now
  | removeMount w => if w ∈ S then st.edit now else st
  | markApplied => st.mark now

/-- A database, and the mounts of the secret as the calls so far tell them. -/
abbrev Replayed := Db × Finset ID

/-- The call is made: a refused one tells nothing. -/
def step (id : ID) (s : Replayed) (c : SecretCall × Time) : Option Replayed :=
  let x := (c.1.op id).program c.2
  some (Method.after x s.1, if Method.accepted x s.1 then c.1.mounts s.2 else s.2)

/-- The call marks. -/
def Marks (_ : Replayed) (c : SecretCall × Time) : Prop := c.1 = .markApplied

/-- Refused, or without a change. -/
def Keeps (id : ID) (s : Replayed) (c : SecretCall × Time) : Prop :=
  Method.accepted ((c.1.op id).program c.2) s.1 = true → ¬ c.1.Changes s.2

/-- The secret is there, with these mounts. -/
structure Holds (id : ID) (s : Replayed) : Prop where
  row : (s.1.secrets.find? id).isSome
  mounts : ∀ w, ⟨id, w⟩ ∈ s.1.secretMounts ↔ w ∈ s.2

variable {id : ID} {db db' : Db} {S : Finset ID} {now : Time} {c : SecretCall} {s s' : Replayed}

theorem changes_addMount {w : ID} : (addMount w).Changes S ↔ w ∉ S := Finset.insert_ne_self

theorem changes_removeMount {w : ID} : (removeMount w).Changes S ↔ w ∈ S := Finset.erase_ne_self

/-- The mounts of the secret after an edit of them. -/
theorem holds_edited {ed : MountEdit} {T : Finset ID} (h : Holds id (db, S)) (hed : Db.MountsEdited ed db db')
    (hrow : (db'.secrets.find? id).isSome)
    (hT : ∀ w, w ∈ T ↔ ed.names id w = true ∨ (w ∈ S ∧ ed.withdraws id w = false)) : Holds id (db', T) where
  row := hrow
  mounts w := by
    rw [hT, hed.mem]
    exact or_congr_right (and_congr_left fun _ => h.mounts w)

theorem holds_touched (h : Holds id (db, S)) : Holds id (db.touchSecret id now, S) where
  row := by
    unfold Db.touchSecret
    rw [Table.isSome_find?_modify]
    exact h.row
  mounts := h.mounts

theorem stampAt_touched (h : (db.secrets.find? id).isSome) :
    stampAt SecretRow.stamp (db.touchSecret id now).secrets id =
    (stampAt SecretRow.stamp db.secrets id).edit now := by
  refine stampAt_modify (g := fun st => st.edit now) h ?_ ?_
  all_goals exact fun _ => rfl

/-- An update that goes through. -/
theorem holds_updated {owner group mode : String} {wids : List ID} (h : Holds id (db, S))
    (hdb : db.updateSecret id owner group mode wids now = .ok db') : Holds id (db', wids.toFinset) ∧
      stampAt SecretRow.stamp db'.secrets id = (stampAt SecretRow.stamp db.secrets id).edit now := by
  have hed := Db.updateSecret_edited hdb
  obtain ⟨m, rfl⟩ := Db.replaceMounts_frame hdb
  refine ⟨holds_edited h hed ?_ fun w => ?_, ?_⟩
  · rw [Table.isSome_find?_modify]
    exact h.row
  · simp [MountEdit.names, MountEdit.withdraws]
  · refine stampAt_modify (g := fun st => st.edit now) h.row ?_ ?_
    all_goals exact fun _ => rfl

theorem insertMountOrIgnore_count {n : Nat} {w : ID} (h : db.insertMountOrIgnore id w = .ok (n, db')) :
    n = 0 ↔ ⟨id, w⟩ ∈ db.secretMounts := by
  unfold Db.insertMountOrIgnore at h
  split at h
  · rename_i hin
    cases h
    exact iff_of_true rfl (List.contains_iff_mem.1 hin)
  · rename_i hout
    split at h
    · cases h
    · cases h
      exact iff_of_false Nat.one_ne_zero fun hin => hout (List.contains_iff_mem.2 hin)

/-- A mount written to the table, and the stamp if that changed something. -/
theorem holds_mounted {ed : MountEdit} {n : Nat} {T : Finset ID} (h : Holds id (db, S))
    (hed : Db.MountsEdited ed db db') (hsame : db'.secrets = db.secrets)
    (hT : ∀ w, w ∈ T ↔ ed.names id w = true ∨ (w ∈ S ∧ ed.withdraws id w = false)) :
    Holds id (if n = 0 then db' else db'.touchSecret id now, T) ∧
      stampAt SecretRow.stamp (if n = 0 then db' else db'.touchSecret id now).secrets id =
        if n = 0 then stampAt SecretRow.stamp db.secrets id else (stampAt SecretRow.stamp db.secrets id).edit now := by
  have hrow : (db'.secrets.find? id).isSome := by
    rw [hsame]
    exact h.row
  have hheld : Holds id (db', T) := holds_edited h hed hrow hT
  split
  · exact ⟨hheld, by rw [hsame]⟩
  · exact ⟨holds_touched hheld, by rw [stampAt_touched hrow, hsame]⟩

/-- A call that goes through, on the row and on the mounts. -/
theorem step_accepted (h : Holds id (db, S)) (hok : Method.accepted ((c.op id).program now) db = true) :
    Holds id (Method.after ((c.op id).program now) db, c.mounts S) ∧
      stampAt SecretRow.stamp (Method.after ((c.op id).program now) db).secrets id =
        c.restamp S now (stampAt SecretRow.stamp db.secrets id) := by
  cases c with
  | update owner group mode wids =>
    rcases updateSecret_cases db id owner group mode wids now with ⟨hno, -⟩ | ⟨-, hdb⟩
    · exact nomatch hno.symm.trans hok
    · exact holds_updated h hdb
  | addMount w =>
    rcases mount_cases db (fun db => db.insertMountOrIgnore id w) id now with ⟨hno,
      -⟩ | ⟨-, n, db', hdb, hafter⟩
    · exact nomatch hno.symm.trans hok
    · have hafter : Method.after ((op id (addMount w)).program now) db = _ := hafter
      rw [hafter]
      have hn : n = 0 ↔ w ∈ S := (insertMountOrIgnore_count hdb).trans (h.mounts w)
      have hed := Db.insertMountOrIgnore_edited hdb
      obtain ⟨m, rfl⟩ := Db.insertMountOrIgnore_frame hdb
      have hT : ∀ v, v ∈ insert w S ↔
          (MountEdit.attach id w).names id v = true ∨
            (v ∈ S ∧ (MountEdit.attach id w).withdraws id v = false) := by
        intro v
        rw [Finset.mem_insert]
        simp [MountEdit.names, MountEdit.withdraws, eq_comm (a := w)]
      obtain ⟨hheld, hstamp⟩ := holds_mounted (n := n) h hed rfl hT
      refine ⟨hheld, hstamp.trans ?_⟩
      unfold restamp
      simp only [hn]
  | removeMount w =>
    rcases mount_cases db (fun db => .ok (db.deleteMount id w)) id now with ⟨hno, -⟩ | ⟨-, n, db', hdb, hafter⟩
    · exact nomatch hno.symm.trans hok
    · have hafter : Method.after ((op id (removeMount w)).program now) db = _ := hafter
      rw [hafter]
      have hcount : db.secretMounts.count ⟨id, w⟩ = n := congrArg Prod.fst (Except.ok.inj hdb)
      have hn : n = 0 ↔ w ∉ S := by
        rw [← hcount, List.count_eq_zero]
        exact not_congr (h.mounts w)
      have hed := Db.deleteMount_edited db id w
      obtain rfl : (db.deleteMount id w).2 = db' := congrArg Prod.snd (Except.ok.inj hdb)
      have hT : ∀ v, v ∈ S.erase w ↔
          (MountEdit.detach id w).names id v = true ∨
            (v ∈ S ∧ (MountEdit.detach id w).withdraws id v = false) := by
        intro v
        rw [Finset.mem_erase, and_comm]
        simp [MountEdit.names, MountEdit.withdraws, eq_comm (a := w)]
      obtain ⟨hheld, hstamp⟩ := holds_mounted (n := n) h hed rfl hT
      refine ⟨hheld, hstamp.trans ?_⟩
      unfold restamp
      simp only [hn, ite_not]
  | touch => exact ⟨holds_touched h, stampAt_touched h.row⟩
  | markApplied =>
    refine ⟨⟨?_, h.mounts⟩, stampAt_modify (g := fun st => st.mark now) h.row ?_ ?_⟩
    · show ((db.markSecretApplied id now).secrets.find? id).isSome
      unfold Db.markSecretApplied
      rw [Table.isSome_find?_modify]
      exact h.row
    all_goals exact fun _ => rfl

theorem refused_after (hno : Method.accepted ((c.op id).program now) db = false) :
    Method.after ((c.op id).program now) db = db := by
  cases c with
  | update owner group mode wids =>
    rcases updateSecret_cases db id owner group mode wids now with ⟨-, hsame⟩ | ⟨hok, -⟩
    · exact hsame
    · exact nomatch hok.symm.trans hno
  | addMount w =>
    rcases mount_cases db (fun db => db.insertMountOrIgnore id w) id now with ⟨-, hsame⟩ | ⟨hok, -⟩
    · exact hsame
    · exact nomatch hok.symm.trans hno
  | removeMount w =>
    rcases mount_cases db (fun db => .ok (db.deleteMount id w)) id now with ⟨-, hsame⟩ | ⟨hok, -⟩
    · exact hsame
    · exact nomatch hok.symm.trans hno
  | touch | markApplied => exact nomatch hno

theorem restamp_of_changes {st : Stamp Time} (h : c.Changes S) : c.restamp S now st = st.edit now := by
  cases c with
  | update | touch => rfl
  | addMount w => exact if_neg (changes_addMount.1 h)
  | removeMount w => exact if_pos (changes_removeMount.1 h)
  | markApplied => exact h.elim

theorem restamp_of_not_changes {st : Stamp Time} (h : ¬ c.Changes S) (hm : c ≠ markApplied) :
    c.restamp S now st = st := by
  cases c with
  | update | touch => exact absurd trivial h
  | addMount w => exact if_pos (not_not.1 (mt changes_addMount.2 h))
  | removeMount w => exact if_neg (mt changes_removeMount.2 h)
  | markApplied => exact absurd rfl hm

/-- One call, gone through or refused. -/
theorem step_cases {t : Time} (h : Holds id s) (hs : step id s (c, t) = some s') :
    (Method.accepted ((c.op id).program t) s.1 = false ∧ s' = s) ∨
    (Method.accepted ((c.op id).program t) s.1 = true ∧ Holds id s' ∧ s'.2 = c.mounts s.2 ∧
      stampAt SecretRow.stamp s'.1.secrets id = c.restamp s.2 t (stampAt SecretRow.stamp s.1.secrets id)) := by
  obtain ⟨db, S⟩ := s
  cases hs
  dsimp only
  cases hacc : Method.accepted ((c.op id).program t) db with
  | false => exact .inl ⟨rfl, Prod.ext (refused_after hacc) rfl⟩
  | true =>
    obtain ⟨hheld, hstamp⟩ := step_accepted h hacc
    exact .inr ⟨rfl, hheld, rfl, hstamp⟩

theorem stamping (id : ID) : Stamping (step id) Prod.snd (fun s => stampAt SecretRow.stamp s.1.secrets id) (Holds id)
    Marks (Keeps id) where
  inv h hs := by
    rcases step_cases h hs with ⟨-, rfl⟩ | ⟨-, hheld, -⟩
    · exact h
    · exact hheld
  marks {s c s'} h hs hm := by
    obtain ⟨c, t⟩ := c
    cases hm
    rcases step_cases h hs with ⟨hno, -⟩ | ⟨-, -, -, hstamp⟩
    · exact nomatch hno
    · exact hstamp
  keeps {s c s'} h hs hm hk := by
    rcases step_cases h hs with ⟨-, rfl⟩ | ⟨hok, -, -, hstamp⟩
    · rfl
    · exact hstamp.trans (restamp_of_not_changes (hk hok) hm)
  edits {s c s'} h hs hm hk := by
    obtain ⟨hok, hch⟩ := Classical.not_imp.1 hk
    rcases step_cases h hs with ⟨hno, -⟩ | ⟨-, -, -, hstamp⟩
    · exact nomatch hno.symm.trans hok
    · exact hstamp.trans (restamp_of_changes (not_not.1 hch))

/-- The row a creation writes. -/
theorem createSecret_row {name owner group mode : String} {wids : List ID} {a : ID}
    (h : db.createSecret name owner group mode wids now = .ok (a, db')) :
    a = db.secrets.nextId ∧ db'.secrets.find? a = some ⟨a, name, owner, group, mode, now, now, none⟩ := by
  obtain ⟨-, rfl, hrep⟩ := Db.createSecret_ok h
  obtain ⟨mounts, rfl⟩ := Db.replaceMounts_frame hrep
  exact ⟨rfl, Table.find?_insert_self⟩

/-- A secret that was created is there, unmarked, with the mounts it was given. -/
theorem createSecret_holds {name owner group mode : String} {wids : List ID} {sec : Secret}
    (h : Method.answer (Method.createSecret name owner group mode wids now) db = .ok sec) :
    Holds sec.id (Method.after (Method.createSecret name owner group mode wids now) db, wids.toFinset) ∧
      stampAt SecretRow.stamp (Method.after (Method.createSecret name owner group mode wids now) db).secrets sec.id =
        ⟨now, none⟩ := by
  have hdb := answer_createSecret h
  generalize Method.after (Method.createSecret name owner group mode wids now) db = db' at hdb ⊢
  obtain ⟨hid, hrow⟩ := createSecret_row hdb
  refine ⟨⟨?_, fun w => ?_⟩, ?_⟩
  · rw [hrow]
    rfl
  · rw [(Db.createSecret_edited hdb).mem, ← hid]
    simp [MountEdit.names, MountEdit.withdraws]
  · unfold stampAt
    rw [hrow]
    rfl

/-- What the store shows of the secret after the calls. -/
theorem shown (id : ID) {t₀ : Time} {calls : List (SecretCall × Time)} (h : Holds id s)
    (hstamp : stampAt SecretRow.stamp s.1.secrets id = ⟨t₀, none⟩)
    (hclock : (t₀ :: calls.map Prod.snd).Pairwise (· < ·)) :
    ∃ s', exec (step id) s calls = some s' ∧ ∃ sec, Method.answer (Method.secretByID id) s'.1 = .ok sec ∧
      (sec.status = .applied ↔ Runs.Since (step id) Marks (Keeps id) s calls) ∧
      sec.workloadIDs.toFinset = s'.2 := by
  obtain ⟨s', hs'⟩ := exec_total (fun _ _ => rfl : ∀ s c, (step id s c).isSome) s calls
  obtain ⟨hheld, -, hfresh⟩ := (stamping id).fresh_iff h
    (by rw [hstamp]; exact fun t ht => ⟨ht, nofun⟩) (by rw [hstamp]; exact nofun) hclock hs'
  obtain ⟨row, hrow⟩ := Option.isSome_iff_exists.1 hheld.row
  have hid : row.id = id := (Table.find?_eq_some.1 hrow).2
  refine ⟨s', hs', { row with workloadIDs := s'.1.mountsOf row.id }, ?_, ?_, ?_⟩
  · unfold Method.answer
    rw [run_secretByID id rfl]
    show (match s'.1.secretRowByID id with | .ok row => _ | .error e => _ : Except Err Secret × Conn Db).1 = _
    rw [secretRowByID_ok.2 hrow]
    rfl
  · rw [← hfresh, SecretRow.status_applied_iff]
    unfold stampAt
    rw [hrow]
    rfl
  · ext w
    rw [List.mem_toFinset, hid, ← hheld.mounts w]
    exact Db.mem_mountsOf

end SecretCall

/-! ## Calls on one input -/

/-- The calls on an input there is. -/
inductive InputCall
  | update (url : String) (followsNixpkgs : Bool)
  | markApplied
  deriving DecidableEq, Repr

namespace InputCall

/-- The method of a call. -/
def program (id : ID) (c : InputCall) (now : Time) : Method.Call Unit :=
  match c with
  | update url followsNixpkgs => Method.updateFlakeInput id url followsNixpkgs now
  | markApplied => Method.markFlakeInputApplied id now

/-- The database after a call. -/
def step (id : ID) (db : Db) (c : InputCall × Time) : Option Db := some (Method.after (c.1.program id c.2) db)

/-- The call marks. -/
def Marks (_ : Db) (c : InputCall × Time) : Prop := c.1 = .markApplied

/-- No update: there is no other call. -/
def Keeps (_ : Db) (c : InputCall × Time) : Prop := ∀ url follows, c.1 ≠ .update url follows

variable {id : ID} {db db' : Db} {now : Time}

theorem stamping (id : ID) : Stamping (step id) Prod.snd (fun db => stampAt FlakeInput.stamp db.flakeInputs id)
    (fun db => (db.flakeInputs.find? id).isSome) Marks Keeps where
  inv {db c db'} h hs := by
    obtain ⟨c, t⟩ := c
    cases hs
    cases c with
    | update url follows =>
      show ((db.updateFlakeInput id url follows t).flakeInputs.find? id).isSome
      unfold Db.updateFlakeInput
      rw [Table.isSome_find?_modify]
      exact h
    | markApplied =>
      show ((db.markFlakeInputApplied id t).flakeInputs.find? id).isSome
      unfold Db.markFlakeInputApplied
      rw [Table.isSome_find?_modify]
      exact h
  marks {db c db'} h hs hm := by
    obtain ⟨c, t⟩ := c
    cases hm
    cases hs
    refine stampAt_modify (g := fun st => st.mark t) h ?_ ?_
    all_goals exact fun _ => rfl
  keeps {db c db'} h hs hm hk := by
    obtain ⟨c, t⟩ := c
    cases c with
    | update url follows => exact absurd rfl (hk url follows)
    | markApplied => exact absurd rfl hm
  edits {db c db'} h hs hm hk := by
    obtain ⟨c, t⟩ := c
    cases c with
    | update url follows =>
      cases hs
      refine stampAt_modify (g := fun st => st.edit t) h ?_ ?_
      all_goals exact fun _ => rfl
    | markApplied => exact absurd rfl hm

theorem flakeInputByID_ok {f : FlakeInput} : db.flakeInputByID id = .ok f ↔ db.flakeInputs.find? id = some f := by
  unfold Db.flakeInputByID
  cases db.flakeInputs.find? id with
  | none => exact ⟨nofun, nofun⟩
  | some x => exact ⟨fun h => by cases h; rfl, fun h => by cases h; rfl⟩

/-- An input that was created is there, unmarked. -/
theorem createFlakeInput_holds {name url : String} {follows : Bool} {f : FlakeInput}
    (h : Method.answer (Method.createFlakeInput name url follows now) db = .ok f) :
    (Method.after (Method.createFlakeInput name url follows now) db).flakeInputs.find? f.id =
      some ⟨f.id, name, url, follows, now, now, none⟩ := by
  obtain ⟨id, d, hd, hrun⟩ := run_then (exec_allOrNothing _ rfl) h
  change db.createFlakeInput name url follows now = .ok (id, d) at hd
  change Prog.run (Method.createFlakeInput name url follows now).run (Conn.open_ db) = _ at hrun
  rw [run_query _ rfl] at hrun
  have hfound : d.flakeInputs.find? id = some ⟨id, name, url, follows, now, now, none⟩ := by
    obtain ⟨-, rfl, rfl⟩ := Db.createFlakeInput_ok hd
    exact Table.find?_insert_self
  change (Prog.run (Method.createFlakeInput name url follows now).run (Conn.open_ db)).1 = _ at h
  unfold Method.after
  rw [hrun] at h ⊢
  dsimp only at h ⊢
  rw [flakeInputByID_ok.2 hfound] at h
  cases h
  exact hfound

/-- What the store shows of the input after the calls. -/
theorem shown (id : ID) {t₀ : Time} {calls : List (InputCall × Time)} (h : (db.flakeInputs.find? id).isSome)
    (hstamp : stampAt FlakeInput.stamp db.flakeInputs id = ⟨t₀, none⟩)
    (hclock : (t₀ :: calls.map Prod.snd).Pairwise (· < ·)) :
    ∃ db', exec (step id) db calls = some db' ∧ ∃ f, db'.flakeInputByID id = .ok f ∧
      (f.status = .locked ↔ Runs.Since (step id) Marks Keeps db calls) := by
  obtain ⟨db', hdb'⟩ := exec_total (fun _ _ => rfl : ∀ db c, (step id db c).isSome) db calls
  obtain ⟨hrow, -, hfresh⟩ := (stamping id).fresh_iff h
    (by rw [hstamp]; exact fun t ht => ⟨ht, nofun⟩) (by rw [hstamp]; exact nofun) hclock hdb'
  obtain ⟨f, hf⟩ := Option.isSome_iff_exists.1 hrow
  refine ⟨db', hdb', f, flakeInputByID_ok.2 hf, ?_⟩
  rw [← hfresh, FlakeInput.status_locked_iff]
  unfold stampAt
  rw [hf]
  rfl

end InputCall

/-- From its creation on, whatever the calls: a secret is shown as applied exactly if it was marked and no call since
changed it, with the mounts the calls tell; and an input as locked exactly if it was marked and not updated since. -/
theorem badges_replayed (db : Db) :
    (∀ name owner group mode workloadIDs t₀ sec,
      Method.answer (Method.createSecret name owner group mode workloadIDs t₀) db = .ok sec →
      ∀ calls : List (SecretCall × Time), (t₀ :: calls.map Prod.snd).Pairwise (· < ·) →
        let start := (Method.after (Method.createSecret name owner group mode workloadIDs t₀) db,
          workloadIDs.toFinset)
        ∃ s, exec (SecretCall.step sec.id) start calls = some s ∧
          ∃ sec', Method.answer (Method.secretByID sec.id) s.1 = .ok sec' ∧
            (sec'.status = .applied ↔
              Runs.Since (SecretCall.step sec.id) SecretCall.Marks (SecretCall.Keeps sec.id) start calls) ∧
            sec'.workloadIDs.toFinset = s.2) ∧
    (∀ name url follows t₀ f, Method.answer (Method.createFlakeInput name url follows t₀) db = .ok f →
      ∀ calls : List (InputCall × Time), (t₀ :: calls.map Prod.snd).Pairwise (· < ·) →
        let start := Method.after (Method.createFlakeInput name url follows t₀) db
        ∃ db', exec (InputCall.step f.id) start calls = some db' ∧ ∃ f', db'.flakeInputByID f.id = .ok f' ∧
          (f'.status = .locked ↔ Runs.Since (InputCall.step f.id) InputCall.Marks InputCall.Keeps start calls)) := by
  refine ⟨fun name owner group mode wids t₀ sec h calls hclock => ?_,
    fun name url follows t₀ f h calls hclock => ?_⟩
  · obtain ⟨hheld, hstamp⟩ := SecretCall.createSecret_holds h
    exact SecretCall.shown sec.id hheld hstamp hclock
  · have hrow := InputCall.createFlakeInput_holds h
    refine InputCall.shown f.id ?_ ?_ hclock
    · rw [hrow]
      rfl
    · unfold stampAt
      rw [hrow]
      rfl

/-- A mark, the removal of a mount that is not there, and a touch; an update and a mark. -/
theorem badges_replayed_touched :
    (let start := (Method.after (Method.createSecret "token" "root" "root" "0400" [] 1) .empty, List.toFinset [])
      ∃ s, exec (SecretCall.step 1) start [(.markApplied, 2), (.removeMount 7, 3), (.touch, 4)] = some s ∧
        ∃ sec, Method.answer (Method.secretByID 1) s.1 = .ok sec ∧
          (sec.status = .applied ↔ Runs.Since (SecretCall.step 1) SecretCall.Marks (SecretCall.Keeps 1) start
            [(.markApplied, 2), (.removeMount 7, 3), (.touch, 4)]) ∧ sec.workloadIDs.toFinset = s.2) ∧
    (let start := Method.after (Method.createFlakeInput "agenix" "github:ryantm/agenix" true 1) .empty
      ∃ db, exec (InputCall.step 1) start [(.update "github:owner/agenix" true, 2), (.markApplied, 3)] = some db ∧
        ∃ f, db.flakeInputByID 1 = .ok f ∧
          (f.status = .locked ↔ Runs.Since (InputCall.step 1) InputCall.Marks InputCall.Keeps
            start [(.update "github:owner/agenix" true, 2), (.markApplied, 3)])) :=
  ⟨(badges_replayed .empty).1 "token" "root" "root" "0400" [] 1
    ⟨⟨1, "token", "root", "root", "0400", 1, 1, none⟩, []⟩ rfl
      _ (by decide),
    (badges_replayed .empty).2 "agenix" "github:ryantm/agenix" true 1
      ⟨1, "agenix", "github:ryantm/agenix", true, 1, 1, none⟩ rfl _ (by decide)⟩

end Nixbox.Store
