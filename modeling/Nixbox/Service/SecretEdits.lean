/-
The value and the mounts of a secret change only with its row: whatever replaces the ciphertext or
the mounts also stamps the row, unless writing the row fails after the ciphertext was written.
-/
import Nixbox.Server.Saves
import Nixbox.Service.Stamps
import Nixbox.Store.Mounts

namespace Nixbox

open Effect Prog Store Server Keyed Directory
open Nix hiding FlakeInput

/-! ## Definitions -/

/-- The mounts and the ciphertext of `x` are the same in both states. -/
def SameValue (s s' : State) (x : SecretRow) : Prop :=
  s'.db.mountsOf x.id = s.db.mountsOf x.id ∧
    s'.disk.secrets.get? (secretFile x.name) = s.disk.secrets.get? (secretFile x.name)

/-- A secret whose row has not been edited has its mounts and its ciphertext. -/
def ValuesKept (s s' : State) : Prop :=
  ∀ x ∈ s.db.secrets, ∀ x' ∈ s'.db.secrets, unapplied x' = unapplied x → SameValue s s' x

/-- An edit of a value or of mounts gets as far as the stamp: no write of a save, an attach or a detach
fails, and a save names each workload once among its mounts. -/
def Server.Request.stamps (s : State) (faults : List Bool) (r : Request) : Bool :=
  match r with
  | .secretSave _ form =>
    (serve r).failsOnly (fun _ op => op.reads) faults s && (form.mounts.filterMap Go.parseInt).Nodup
  | .workloadSecretAttach .. | .workloadSecretDetach .. => (serve r).failsOnly (fun _ op => op.reads) faults s
  | _ => true

/-! ## Rules -/

section Rules

variable {s s' : State}

theorem ValuesKept.of_same (h : ∀ x ∈ s.db.secrets, SameValue s s' x) : ValuesKept s s' := fun x hx _ _ _ => h x hx

theorem valuesKept_of_eq (hm : s'.db.secretMounts = s.db.secretMounts) (hd : s'.disk.secrets = s.disk.secrets) :
    ValuesKept s s' := by
  refine .of_same fun x _ => ⟨?_, ?_⟩
  · unfold Db.mountsOf
    rw [hm]
  · rw [hd]

/-- The file names of secrets are their names. -/
theorem secretFile_inj {a b : String} (h : secretFile a = secretFile b) : a = b := by
  have htoList := congrArg String.toList h
  unfold secretFile at htoList
  rw [String.toList_append, String.toList_append] at htoList
  exact String.toList_inj.1 (List.append_cancel_right htoList)

/-- Pruning, as far as it gets, spares the ciphertexts of declared secrets. -/
theorem PartlyPrepared.sameValue {t : State} (h : PartlyPrepared s t) (hdb : s'.db.secretMounts = s.db.secretMounts)
    (hdisk : s'.disk = t.disk) : ValuesKept s s' := by
  refine .of_same fun x hx => ⟨?_, ?_⟩
  · unfold Db.mountsOf
    rw [hdb]
  · obtain ⟨removed, hpre, hsecrets⟩ := h.secrets
    rw [hdisk, hsecrets, get?_foldl_remove, if_neg]
    intro hmem
    obtain ⟨e, he, hname⟩ := List.mem_map.1 hmem
    have horphan := (List.mem_filter.1 (hpre.subset he)).2
    have hin : (s.keptSecrets.map secretFile).contains e.1 = true := by
      rw [List.contains_iff_mem, hname]
      exact mem_keptSecrets hx
    unfold orphan at horphan
    rw [hin] at horphan
    simp at horphan

end Rules

/-! ## Parsing the form, encrypting -/

section Calls

variable {F : ∀ β : Type, Op β → Bool} {s : State}

theorem parseMount_reads (v : String) :
    Reads (fun id => Go.parseInt v = some id ∧ (s.db.workloads.find? id).isSome) (parseMount v) s := by
  unfold parseMount
  split
  · exact reads_throw
  · rename_i id hid
    refine ends_exceptT_bind.2 (ends_attempt.2 (EndsIf.mono reads_query fun r s' hr => ?_))
    obtain ⟨rfl, hr⟩ := hr
    cases r with
    | error e => exact reads_throw
    | ok wl =>
      dsimp only
      split
      · refine reads_pure ⟨hid, ?_⟩
        have hfound := hr wl rfl
        unfold Db.workloadByID at hfound
        split at hfound
        · rename_i hf
          rw [hf]
          rfl
        · cases hfound
      · exact reads_throw

theorem filterMap_of_forall₂ {vs : List String} {ids : List ID} {P : ID → Prop}
    (h : List.Forall₂ (fun v id => Go.parseInt v = some id ∧ P id) vs ids) :
    ids = vs.filterMap Go.parseInt ∧ ∀ id ∈ ids, P id := by
  induction h with
  | nil => exact ⟨rfl, nofun⟩
  | cons hv _ ih =>
    refine ⟨?_, fun id hid => ?_⟩
    · rw [List.filterMap_cons_some hv.1, ← ih.1]
    · rcases List.mem_cons.1 hid with rfl | hid
      · exact hv.2
      · exact ih.2 id hid

theorem parseSecretForm_reads (form : SecretForm) :
    Reads (fun f => f.mounts = form.mounts.filterMap Go.parseInt ∧
      ∀ id ∈ f.mounts, (s.db.workloads.find? id).isSome) (parseSecretForm form) s := by
  unfold parseSecretForm
  dsimp only
  split
  · exact reads_throw
  · split
    · exact reads_throw
    · refine (reads_forEach_rel fun v _ => parseMount_reads v).seq fun ids hids => reads_pure ?_
      exact filterMap_of_forall₂ hids

/-- What encrypting a value for `name` leaves: at most the file of that name is written. -/
structure Encrypted (name : String) (s t : State) : Prop where
  db : t.db = s.db
  host : t.host = s.host
  ticks : s.ticks ≤ t.ticks
  others : ∀ n, n ≠ secretFile name → t.disk.secrets.get? n = s.disk.secrets.get? n

theorem Encrypted.refl (name : String) (s : State) : Encrypted name s s := ⟨rfl, rfl, Nat.le_refl _, fun _ _ => rfl⟩

theorem encryptSecret_ends (name plaintext : String) :
    EndsIf F (fun r t => Encrypted name s t ∧ ∀ e, r = .error e → t.disk = s.disk)
    (encryptSecret name plaintext).run s := by
  have hticked : Encrypted name s { s with ticks := s.ticks + 1 } := ⟨rfl, rfl, Nat.le_succ _, fun _ _ => rfl⟩
  refine ends_exceptT_bind.2 (endsIf_call.2 ⟨?_, fun _ r hr => ?_⟩)
  · rw [show s.exec (.encrypt plaintext) = (s.host.encrypt s.ticks plaintext,
      { s with ticks := s.ticks + 1 }) from rfl]
    cases s.host.encrypt s.ticks plaintext with
    | error e => exact ⟨hticked, fun _ _ => rfl⟩
    | ok ct =>
      dsimp only
      unfold writeSecret checked
      split
      · exact ends_throw.2 ⟨hticked, fun _ _ => rfl⟩
      refine endsIf_call.2 ⟨?_, fun _ r hr => ?_⟩
      · rw [show State.exec _ (.writeSecret (secretFile name) ct) = State.writeSecret _ (secretFile name) ct from rfl]
        rcases State.writeSecret_cases _ (secretFile name) ct with hw | hw
        · rw [hw]
          exact ⟨hticked, fun _ _ => rfl⟩
        · rw [hw]
          exact ⟨⟨rfl, rfl, Nat.le_succ _, fun n hn => Dir.get?_put_of_ne hn⟩, nofun⟩
      · cases hr
        exact ⟨hticked, fun _ _ => rfl⟩
  · cases hr
    exact ⟨.refl name s, fun _ _ => rfl⟩

end Calls

/-! ## Creating -/

section Requests

variable {s : State}

theorem Encrypted.mountsOf {name : String} {t : State} (h : Encrypted name s t) (id : ID) :
    t.db.mountsOf id = s.db.mountsOf id := by
  rw [h.db]

/-- A ciphertext under the name of no secret changes none. -/
theorem Encrypted.sameValue {name : String} {t : State} (h : Encrypted name s t)
    {x : SecretRow} (hne : x.name ≠ name) :
    SameValue s t x :=
  ⟨h.mountsOf x.id, h.others _ fun heq => hne (secretFile_inj heq)⟩

theorem SameValue.trans {t u : State} {x : SecretRow} (h : SameValue s t x) (h' : SameValue t u x) : SameValue s u x :=
  ⟨h'.1.trans h.1, h'.2.trans h.2⟩

/-- A statement writes no file; one that fails changes nothing but the reading count. -/
theorem write_sameValue {α : Type} {w : Write α} {t : State} {x : SecretRow}
    (h : ∀ a db, w.run (t.host.clock t.ticks) t.db = .ok (a, db) → db.mountsOf x.id = t.db.mountsOf x.id) :
    SameValue t (t.write w).2 x := by
  obtain ⟨db, ht, hdb⟩ := t.write_cases w
  rw [ht]
  rcases hdb with rfl | ⟨a, hrun⟩
  · exact ⟨rfl, rfl⟩
  · exact ⟨h a db hrun, rfl⟩

theorem secretByID_reads (id : ID) : Reads (fun _ => True) (Store.secretByID id) s :=
  reads_query.seq fun _ _ => reads_query_ok.seq fun _ _ => reads_pure trivial

/-- Looking a secret up by name. -/
theorem secretByName_ends (name : String) :
    Ends (fun r s' => s' = s ∧ match r with
      | .ok sec => sec.toSecretRow ∈ s.db.secrets ∧ sec.name = name
      | .error .notFound => ∀ x ∈ s.db.secrets, x.name ≠ name
      | .error .failed => True) (Store.secretByName name).run s := by
  refine ends_exceptT_bind.2 (ends_query.2 ⟨?_, rfl, trivial⟩)
  cases hrow : s.db.secretRowByName name with
  | error e =>
    cases e with
    | notFound => exact ⟨rfl, Db.secretRowByName_error hrow⟩
    | failed => exact ⟨rfl, trivial⟩
  | ok x =>
    refine ends_exceptT_bind.2 (ends_query.2 ⟨ends_return.2 ⟨rfl, ?_⟩, rfl, trivial⟩)
    unfold Db.secretRowByName at hrow
    split at hrow
    · rename_i hfind
      cases hrow
      exact ⟨List.mem_of_find?_eq_some hfind, by simpa using List.find?_some hfind⟩
    · cases hrow

/-- A new secret has a name of its own, and an id of its own. -/
theorem createSecretAt_values (back name : String) (form : SecretForm) (mounts : SecretFields → List ID) :
    Ends (fun _ s' => ValuesKept s s') (createSecretAt back name form mounts).run s := by
  have hnothing : ValuesKept s s := valuesKept_of_eq rfl rfl
  unfold createSecretAt
  dsimp only
  split
  · exact ends_return.2 hnothing
  refine ends_exceptT_bind.2 (ends_attempt.2 (EndsIf.mono (parseSecretForm_reads form) fun r s' hr => ?_))
  obtain ⟨rfl, -⟩ := hr
  cases r with
  | error m => exact ends_return.2 hnothing
  | ok f =>
    dsimp only
    split
    · exact ends_return.2 hnothing
    refine ends_exceptT_bind.2 (ends_attempt.2 ((secretByName_ends name).mono fun r s'' hr => ?_))
    obtain ⟨rfl, hfree⟩ := hr
    match r, hfree with
    | .ok _, _ => exact ends_return.2 hnothing
    | .error .failed, _ => exact ends_throw.2 hnothing
    | .error .notFound, hfree =>
      refine ends_exceptT_bind.2 (ends_attempt.2 ((encryptSecret_ends name f.value).mono fun r t ht => ?_))
      -- the name is free: the file of no row is written
      have hsame : ∀ x ∈ s''.db.secrets, SameValue s'' t x := fun x hx => ht.1.sameValue (hfree x hx)
      cases r with
      | error e => exact ends_return.2 (.of_same hsame)
      | ok _ =>
        refine ends_exceptT_bind.2 (ends_orError.2 (ends_exceptT_bind.2 (ends_write.2 ⟨?_, .of_same hsame⟩)))
        have hmade : ValuesKept s'' (t.write (.createSecret name f.owner f.group f.mode (mounts f))).2 := by
          refine .of_same fun x hx => (hsame x hx).trans (write_sameValue fun a db h => ?_)
          refine Db.createSecret_mountsOf h ?_
          rw [ht.1.db]
          exact Int.ne_of_lt (Table.rowid_lt_nextId hx)
        split
        · refine EndsIf.mono (secretByID_reads _) fun r u hu => ?_
          obtain ⟨rfl, -⟩ := hu
          cases r with
          | ok _ => exact ends_return.2 hmade
          | error _ => exact hmade
        · exact hmade

/-! ## Editing -/

theorem reads_secretByName (name : String) :
    Reads (fun sec => sec.toSecretRow ∈ s.db.secrets) (Store.secretByName name) s :=
  (secretByName_ends name).mono fun r _ h => ⟨h.1, fun sec hr => by subst hr; exact h.2.1⟩

/-- A request about one secret: the others keep their values, and its row, if it is still there, is
stamped anew. -/
theorem values_edited {u : State} (sec : SecretRow) (hst : Stamped s)
    (hothers : ∀ x ∈ s.db.secrets, x.id ≠ sec.id → SameValue s u x)
    (hedited : ∀ x ∈ u.db.secrets, x.id = sec.id → s.now ≤ x.updatedAt) : ValuesKept s u := by
  intro x hx x' hx' hsame
  by_cases hid : x.id = sec.id
  · have hid' : x'.id = x.id := by
      show (unapplied x').id = (unapplied x).id
      rw [hsame]
    have hnew := hedited x' hx' (hid'.trans hid)
    have hold : x.updatedAt < s.now := (hst.secrets x hx).1
    have htime : x'.updatedAt = x.updatedAt := updatedAt_eq hsame
    rw [htime] at hnew
    exact absurd hold (not_lt_of_ge hnew)
  · exact hothers x hx hid

theorem handleSecretDelete_values (hst : Stamped s) (name : String) :
    Ends (fun _ s' => ValuesKept s s') (handleSecretDelete name).run s := by
  have hnothing : ValuesKept s s := valuesKept_of_eq rfl rfl
  refine (reads_lookupBy (reads_secretByName name)).bind (fun sec hsec => ?_) fun _ => hnothing
  refine ends_exceptT_bind.2 (ends_orError.2 (ends_write.2 ⟨ends_return.2 ?_, hnothing⟩))
  refine values_edited sec.toSecretRow hst (fun x _ hne => ⟨?_, rfl⟩) fun x hx hid => ?_
  · refine Db.mountsOf_filter fun m hm => ?_
    rw [bne_iff_ne, hm]
    exact hne
  · have hout := (Table.mem_deleteWhere.1 hx).2
    rw [hid] at hout
    simp at hout

/-- A row written with its id has the stamp it is written with. -/
theorem modify_updatedAt {db : Db} {id : ID} {now : Time} {f : SecretRow → SecretRow}
    (hf : ∀ r, rowid (f r) = rowid r)
    (hup : ∀ r, (f r).updatedAt = now) {x : SecretRow} (hx : x ∈ db.secrets.modify id f hf) (hid : x.id = id) :
    x.updatedAt = now := by
  rcases Table.mem_modify.1 hx with ⟨-, hne⟩ | ⟨y, -, -, rfl⟩
  · exact absurd hid hne
  · exact hup y

/-- A mount added or removed stamps the secret; a statement that changes nothing stamps nothing. -/
theorem touchOnChange_values (hclock : StrictMono s.host.clock) (hst : Stamped s)
    {sec : SecretRow} {n : Nat} {t : State}
    (hhost : t.host = s.host) (hticks : s.ticks ≤ t.ticks) (hsame : n = 0 → ValuesKept s t)
    (hothers : n ≠ 0 → ∀ x ∈ s.db.secrets, x.id ≠ sec.id → SameValue s t x) :
    EndsIf (fun _ op => op.reads) (fun _ s' => ValuesKept s s') (touchOnChange n sec.id).run t := by
  unfold touchOnChange
  split
  · rename_i hn
    exact ends_return.2 (hsame hn)
  · rename_i hn
    refine endsIf_write.2 ⟨?_, fun h => by cases h⟩
    rw [State.write_ok (w := .touchSecret sec.id) rfl]
    refine values_edited sec hst (hothers hn) fun x hx hid => ?_
    have hstamp : x.updatedAt = t.now := by
      refine modify_updatedAt ?_ ?_ hx hid
      all_goals exact fun _ => rfl
    rw [hstamp]
    exact now_mono hclock hhost hticks

theorem reads_secretsWorkload (name : String) : Reads (fun _ => True) (secretsWorkload name) s := by
  refine (reads_lookupWorkload name).seq fun w _ => ?_
  split
  · exact reads_pure trivial
  · exact reads_throw

theorem addSecretMount_values (hclock : StrictMono s.host.clock) (hst : Stamped s) (sec : SecretRow) (wid : ID) :
    EndsIf (fun _ op => op.reads) (fun _ s' => ValuesKept s s') (addSecretMount sec.id wid).run s := by
  refine ends_exceptT_bind.2 (endsIf_write.2 ⟨?_, fun h => by cases h⟩)
  cases hrun : (Write.insertMountOrIgnore sec.id wid).run (s.host.clock s.ticks) s.db with
  | error e =>
    have hs : s.write (.insertMountOrIgnore sec.id wid) = (.error e, { s with ticks := s.ticks + 1 }) := by
      unfold State.write
      rw [hrun]
    rw [hs]
    exact valuesKept_of_eq rfl rfl
  | ok a =>
    rw [State.write_ok hrun]
    refine touchOnChange_values hclock hst rfl (Nat.le_succ _) (fun h => ?_) fun h x _ hne => ⟨?_, rfl⟩
    all_goals rcases Db.insertMountOrIgnore_mountsOf hrun with ⟨hn, hdb⟩ | ⟨hn, hothers⟩
    · exact valuesKept_of_eq (by rw [show a.2 = s.db from hdb]) rfl
    · rw [hn] at h
      cases h
    · exact absurd hn h
    · exact hothers x.id hne

theorem removeSecretMount_values (hclock : StrictMono s.host.clock) (hst : Stamped s) (sec : SecretRow) (wid : ID) :
    EndsIf (fun _ op => op.reads) (fun _ s' => ValuesKept s s') (removeSecretMount sec.id wid).run s := by
  refine ends_exceptT_bind.2 (endsIf_write.2 ⟨?_, fun h => by cases h⟩)
  rw [State.write_ok (w := .deleteMount sec.id wid) rfl]
  refine touchOnChange_values hclock hst rfl (Nat.le_succ _) (fun h => ?_) fun h x _ hne => ⟨?_, rfl⟩
  all_goals rcases s.db.deleteMount_mountsOf sec.id wid with ⟨hn, hdb⟩ | ⟨hn, hothers⟩
  · exact valuesKept_of_eq (by rw [hdb]) rfl
  · exact absurd h hn
  · exact absurd hn h
  · exact hothers x.id hne

theorem setWorkloadSecretMount_values (hclock : StrictMono s.host.clock) (hst : Stamped s) (name secret : String)
    (attach : Bool) : EndsIf (fun _ op => op.reads) (fun _ s' => ValuesKept s s')
      (setWorkloadSecretMount name secret attach).run s := by
  have hnothing : ValuesKept s s := valuesKept_of_eq rfl rfl
  refine (reads_secretsWorkload name).bind (fun wl _ => ?_) fun _ => hnothing
  split
  · exact ends_return.2 hnothing
  refine ends_exceptT_bind.2
    (ends_attempt.2 (EndsIf.mono (EndsIf.spared (reads_secretByName secret)) fun r s' hr => ?_))
  obtain ⟨rfl, hr⟩ := hr
  match r, hr with
  | .error .notFound, _ => exact ends_throw.2 hnothing
  | .error .failed, _ => exact ends_throw.2 hnothing
  | .ok sec, hr =>
    have hset : EndsIf (fun _ op => op.reads) (fun _ t => ValuesKept s' t)
        (if attach then addSecretMount sec.id wl.id else removeSecretMount sec.id wl.id).run s' := by
      split
      · exact addSecretMount_values hclock hst sec.toSecretRow wl.id
      · exact removeSecretMount_values hclock hst sec.toSecretRow wl.id
    refine ends_exceptT_bind.2 (ends_orError.2 (hset.mono fun r t ht => ?_))
    cases r with
    | ok _ => exact ends_return.2 ht
    | error _ => exact ht

/-- Saving a secret into workloads that exist, none named twice, succeeds. -/
theorem updateSecret_ok {db : Db} {sec : SecretRow} (hsec : sec ∈ db.secrets) (owner group mode : String) (now : Time)
    {wids : List ID} (hwids : ∀ w ∈ wids, (db.workloads.find? w).isSome) (hnodup : wids.Nodup) :
    ∃ db', db.updateSecret sec.id owner group mode wids now = .ok db' ∧
      (∀ id, id ≠ sec.id → db'.mountsOf id = db.mountsOf id) ∧ ∀ x ∈ db'.secrets, x.id = sec.id →
      x.updatedAt = now := by
  obtain ⟨db', hrep⟩ : ∃ db', db.updateSecret sec.id owner group mode wids now = .ok db' := by
    refine Db.replaceMounts_ok ?_ hwids hnodup
    dsimp only
    rw [Table.find?_modify_self, show db.secrets.find? sec.id = some sec from Table.find?_mem hsec]
    rfl
  obtain ⟨mounts, hdb⟩ := Db.replaceMounts_frame hrep
  refine ⟨db', hrep, fun id hne => ?_, fun x hx hid => ?_⟩
  · have hsame := Db.replaceMounts_mountsOf hrep hne
    exact hsame
  · rw [hdb] at hx
    refine modify_updatedAt ?_ ?_ hx hid
    all_goals exact fun _ => rfl

theorem handleSecretSave_values (hwf : s.db.WF) (hclock : StrictMono s.host.clock) (hst : Stamped s) {name : String}
    {form : SecretForm} (hform : (form.mounts.filterMap Go.parseInt).Nodup) :
    EndsIf (fun _ op => op.reads) (fun _ s' => ValuesKept s s') (handleSecretSave name form).run s := by
  have hnothing : ValuesKept s s := valuesKept_of_eq rfl rfl
  refine (reads_lookupBy (reads_secretByName name)).bind (fun sec hsec => ?_) fun _ => hnothing
  have hsec : sec.toSecretRow ∈ s.db.secrets := hsec.2
  refine ends_exceptT_bind.2
    (ends_attempt.2 (EndsIf.mono (EndsIf.spared (parseSecretForm_reads form)) fun r s' hr => ?_))
  obtain ⟨rfl, hr⟩ := hr
  cases r with
  | error m => exact ends_return.2 hnothing
  | ok f =>
    obtain ⟨hmounts, hwids⟩ := hr f rfl
    have hnodup : f.mounts.Nodup := by
      rw [hmounts]
      exact hform
    -- an empty value keeps the ciphertext
    have hvalue : EndsIf (fun _ op => op.reads) (fun r t => Encrypted sec.name s' t ∧
      ∀ e, r = .error e → t.disk = s'.disk)
        (if f.value = "" then pure () else encryptSecret sec.name f.value : Call Unit).run s' := by
      split
      · exact ends_return.2 ⟨.refl _ _, nofun⟩
      · exact encryptSecret_ends _ _
    refine ends_exceptT_bind.2 (ends_attempt.2 (hvalue.mono fun r t ht => ?_))
    obtain ⟨ht, hfailed⟩ := ht
    cases r with
    | error e => exact ends_return.2 (valuesKept_of_eq (by rw [ht.db]) (by rw [hfailed e rfl]))
    | ok _ =>
      refine ends_exceptT_bind.2 (ends_orError.2 (endsIf_write.2 ⟨?_, fun h => by cases h⟩))
      rw [← ht.db] at hsec hwids
      obtain ⟨db', hrun, hothers, hedited⟩ := updateSecret_ok hsec f.owner f.group f.mode t.now hwids hnodup
      have hwrite : (Write.updateSecret sec.id f.owner f.group f.mode f.mounts).run (t.host.clock t.ticks) t.db =
          .ok ((), db') := by
        show (t.db.updateSecret _ _ _ _ _ _).map _ = _
        rw [show t.db.updateSecret sec.id f.owner f.group f.mode f.mounts (t.host.clock t.ticks) = .ok db' from hrun]
        rfl
      rw [State.write_ok hwrite]
      refine ends_return.2 (values_edited sec.toSecretRow hst (fun x hx hne => ?_) fun x hx hid => ?_)
      · -- another row has another name, and so another file
        have hname : x.name ≠ sec.name := fun heq => hne (by
          rw [hwf.secretNames x hx sec.toSecretRow (by rwa [ht.db] at hsec) heq])
        exact (ht.sameValue hname).trans ⟨hothers x.id hne, rfl⟩
      · rw [hedited x hx hid]
        exact now_mono hclock ht.host ht.ticks

/-! ## Every request -/

/-- Applying only prunes. -/
theorem State.apply_valuesKept {r : Request} {mode : RebuildMode} (hr : r.applyMode = some mode) {faults : List Bool} :
    ValuesKept s (s.handle r faults) := by
  have hend := State.handle_ends (apply_ends hr s) faults
  generalize s.answer r faults = a at hend
  generalize s.handle r faults = u at hend ⊢
  have hjobs : ∀ {t : State}, PartlyPrepared s t → JobRowsOnly t u → ValuesKept s u := by
    intro t ht h
    refine ht.sameValue ?_ h.disk
    obtain ⟨jobs, hdb⟩ := h.db
    rw [hdb, ht.db]
  cases hend with
  | rejected => exact valuesKept_of_eq rfl rfl
  | launched hl => exact hjobs (partlyPrepared_prepared s) hl.toJobRowsOnly
  | refused => exact (partlyPrepared_prepared s).sameValue rfl rfl
  | failed ht hs =>
    rcases hs with rfl | hn
    · exact hjobs ht (.refl _)
    · exact hjobs ht hn.toJobRowsOnly

/-- A secret whose row a request leaves as it was keeps value and mounts, if every edit gets as far
as the stamp. -/
theorem State.handle_valuesKept (hwf : s.db.WF) (hclock : StrictMono s.host.clock) (hst : Stamped s) {r : Request}
    {faults : List Bool} (hr : r.stamps s faults = true) : ValuesKept s (s.handle r faults) := by
  have hframe : .secretFile ∉ r.kinds → .prune ∉ r.kinds → .secretRow ∉ r.kinds →
      ValuesKept s (s.handle r faults) :=
    fun h h' h'' => valuesKept_of_eq ((s.handle_frame r faults).secretRows h'').2
      ((s.handle_frame r faults).secrets h h')
  cases r with
  | secretSave name form =>
    obtain ⟨hfs, hform⟩ := Bool.and_eq_true_iff.1 hr
    exact (ends_answer_of (handleSecretSave_values hwf hclock hst (by simpa using hform))).runWith_of hfs
  | workloadSecretAttach name secret =>
    exact (ends_answer_of (setWorkloadSecretMount_values hclock hst name secret true)).runWith_of hr
  | workloadSecretDetach name secret =>
    exact (ends_answer_of (setWorkloadSecretMount_values hclock hst name secret false)).runWith_of hr
  | secretCreate name form => exact (ends_answer_of (createSecretAt_values _ _ form _)).runWith faults
  | secretDelete name => exact (ends_answer_of (handleSecretDelete_values hst name)).runWith faults
  | workloadSecretCreate name secret form =>
    refine EndsIf.runWith (ends_answer_of ((reads_secretsWorkload name).bind (fun wl _ => ?_) fun _ => ?_)) faults
    · exact createSecretAt_values _ _ form _
    · exact valuesKept_of_eq rfl rfl
  | workloadApply | flakeApply | secretApply | rebuild => exact State.apply_valuesKept rfl
  | _ => apply hframe <;> simp

end Requests

end Nixbox
