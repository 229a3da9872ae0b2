/-
The requests that edit the mounts of a secret: the statement each of them comes to, and that nothing
after it changes a mount, so what is carried out is the edit asked for, whatever fails.
-/
import Nixbox.Lib.Deeds
import Nixbox.Service.Frames
import Nixbox.Service.SecretEdits

namespace Nixbox

open Effect Prog Store Server Keyed
open Nix hiding FlakeInput

/-! ## Definitions -/

/-- The edit a request asks for, on the secret and the workloads it is about by the rows of then. -/
def Server.Request.edit (db : Db) : Request → Option MountEdit
  | .secretCreate _ form => some (.set db.secrets.nextId (form.mounts.filterMap Go.parseInt))
  | .workloadSecretCreate name .. => (db.workloadByName name).toOption.map fun w => .set db.secrets.nextId [w.id]
  | .secretSave name form =>
    (db.secretRowByName name).toOption.map fun x => .set x.id (form.mounts.filterMap Go.parseInt)
  | .workloadSecretAttach name secret => do
    let w ← (db.workloadByName name).toOption
    let x ← (db.secretRowByName secret).toOption
    return .attach x.id w.id
  | .workloadSecretDetach name secret => do
    let w ← (db.workloadByName name).toOption
    let x ← (db.secretRowByName secret).toOption
    return .detach x.id w.id
  | _ => none

/-- The statement of such a request, carried out. -/
def mountStatement {β : Type} (op : Op β) (b : β) : Bool :=
  match op, b with
  | .write (.createSecret ..), .ok _ | .write (.updateSecret ..), .ok _ | .write (.insertMountOrIgnore ..), .ok _
  | .write (.deleteMount ..), .ok _ => true
  | _, _ => false

/-- The answer says that all went well. -/
def Server.Response.flashes : Response → Bool
  | .redirect _ (some (.flash _)) => true
  | _ => false

namespace State

/-- The request's statement on the mounts is carried out, whatever fails after it. -/
def carriesOut (s : State) (r : Request) (faults : List Bool) : Bool :=
  (serve r).does (fun _ => mountStatement) faults s

/-- The request is answered with success. -/
def succeeds (s : State) (r : Request) (faults : List Bool) : Bool := (s.answer r faults).flashes

end State

/-! ## Requests that edit mounts -/

/-- How a request that edits mounts is handled. Only reading and stamping come after its statement. -/
structure MountsHandled (F : ∀ β : Type, Op β → Bool) (r : Request) (s : State) (carried : Bool) (a : Response)
    (s' : State) : Prop where
  idle : carried = false → s'.db.secretMounts = s.db.secretMounts
  edited : carried = true → ∃ ed, r.edit s.db = some ed ∧ Db.MountsEdited ed s.db s'.db
  flashes : a.flashes = true → carried = true
  fails : carried = true → a.flashes = true ∨ ∃ (β : Type) (op : Op β), F β op = true
  rows : ∀ sid, (s.db.secrets.find? sid).isSome → (s'.db.secrets.find? sid).isSome
  workloads : s'.db.workloads = s.db.workloads

section Requests

variable {F : ∀ β : Type, Op β → Bool} {α ε : Type} {r : Request} {s s' : State}

/-- Nothing was done, and the answer does not say so. -/
theorem MountsHandled.nothing {a : Response} (ha : a.flashes = false) (hdb : s'.db = s.db) :
    MountsHandled F r s false a s' := by
  refine ⟨fun _ => by rw [hdb], nofun, fun h => ?_, nofun, fun sid h => by rwa [hdb], by rw [hdb]⟩
  rw [ha] at h
  cases h

/-- A result of the handler is the answer either way. -/
def Answered (Q : Bool → Response → State → Prop) (c : Bool) (r : Except Response Response) (s : State) : Prop :=
  match r with
  | .ok a => Q c a s
  | .error a => Q c a s

theorem endsHaving_answer {h : Handler Response} {C : ∀ β : Type, Op β → β → Bool}
    {Q : Bool → Response → State → Prop}
    (hh : EndsHaving F C (Answered Q) h.run s) : h.answer.EndsHaving F C Q s := by
  unfold Handler.answer
  refine endsHaving_bind.2 (hh.mono fun c r s' hr => ?_)
  match r, hr with
  | .ok a, hr => exact endsHaving_pure.2 (by rw [Bool.or_false]; exact hr)
  | .error a, hr => exact endsHaving_pure.2 (by rw [Bool.or_false]; exact hr)

/-- Programs of calls of other kinds do none of the statements. -/
theorem within_idle {ks : List Kind} {p : Prog Op α} (h : Within ks p) (hk : .secretRow ∉ ks) :
    p.Uses fun _ op => ∀ b, mountStatement op b = false := by
  refine Uses.mono h fun β op hop b => ?_
  have hne : op.kind ≠ .secretRow := fun heq => hk (heq ▸ hop)
  cases op with
  | write w => cases w <;> first | rfl | exact absurd rfl hne
  | _ => rfl

end Requests

/-! ## Statements that edit mounts -/

/-- The edit a statement makes. -/
def Write.edit {α : Type} (w : Write α) (db : Db) : Option MountEdit :=
  match w with
  | .createSecret _ _ _ _ ws => some (.set db.secrets.nextId ws)
  | .updateSecret id _ _ _ ws => some (.set id ws)
  | .insertMountOrIgnore sid wid => some (.attach sid wid)
  | .deleteMount sid wid => some (.detach sid wid)
  | _ => none

section Statements

variable {α : Type} {w : Write α} {now : Time} {db db' : Db} {a : α}

theorem mountStatement_of_edit {ed : MountEdit} (h : w.edit db = some ed) (r : Except Err α) :
    mountStatement (.write w) r = r.toBool := by
  cases w with
  | createSecret | updateSecret | insertMountOrIgnore | deleteMount => cases r <;> rfl
  | _ => cases h

theorem Write.run_edited {ed : MountEdit} (hed : w.edit db = some ed) (h : w.run now db = .ok (a, db')) :
    Db.MountsEdited ed db db' := by
  cases w with
  | createSecret name owner group mode ws =>
    cases hed
    exact Db.createSecret_edited h
  | updateSecret id owner group mode ws =>
    cases hed
    exact Db.updateSecret_edited (Db.unit_ok h)
  | insertMountOrIgnore sid wid =>
    cases hed
    exact Db.insertMountOrIgnore_edited h
  | deleteMount sid wid =>
    cases hed
    cases h
    exact Db.deleteMount_edited db sid wid
  | _ => cases hed

/-- Such a statement takes no secret away. -/
theorem Write.run_secrets {ed : MountEdit} (hed : w.edit db = some ed) (h : w.run now db = .ok (a, db')) {sid : ID}
    (hsid : (db.secrets.find? sid).isSome) : (db'.secrets.find? sid).isSome := by
  cases w with
  | createSecret name owner group mode ws =>
    change db.createSecret name owner group mode ws now = _ at h
    obtain ⟨-, rfl, hrep⟩ := Db.createSecret_ok h
    obtain ⟨m, rfl⟩ := Db.replaceMounts_frame hrep
    obtain ⟨x, hx⟩ := Option.isSome_iff_exists.1 hsid
    dsimp only
    -- an insert hides no row
    rw [Table.find?_insert_of_some hx]
    rfl
  | updateSecret id owner group mode ws =>
    obtain ⟨m, rfl⟩ := Db.replaceMounts_frame (Db.unit_ok h)
    dsimp only
    rwa [Table.isSome_find?_modify]
  | insertMountOrIgnore =>
    obtain ⟨m, rfl⟩ := Db.insertMountOrIgnore_frame h
    exact hsid
  | deleteMount =>
    cases h
    exact hsid
  | _ => cases hed

end Statements

/-! ## The statement and what follows it -/

/-- What follows the statement of a request: rows are read and stamped, and only a call that fails ends it early. -/
structure Trailing (F : ∀ β : Type, Op β → Bool) (s : State) (ended : Bool) (s' : State) : Prop where
  mounts : s'.db.secretMounts = s.db.secretMounts
  workloads : s'.db.workloads = s.db.workloads
  secrets : ∀ sid, (s.db.secrets.find? sid).isSome → (s'.db.secrets.find? sid).isSome
  fails : ended = false → ∃ (β : Type) (op : Op β), F β op = true

section Handlers

variable {F : ∀ β : Type, Op β → Bool} {r : Request} {s t : State} {ed : MountEdit} {α β γ : Type}

theorem Trailing.refl (s : State) : Trailing F s true s := ⟨rfl, rfl, fun _ h => h, nofun⟩

theorem Trailing.failed {op : Op β} (h : F β op = true) (s : State) : Trailing F s false s :=
  ⟨rfl, rfl, fun _ h => h, fun _ => ⟨β, op, h⟩⟩

/-- The statement is carried out; what follows it ends, or stops at a call that fails. -/
theorem MountsHandled.carried {w : Write β} {now : Time} {b : β} {u v : State} {ended : Bool} {a : Response}
    (hreq : r.edit s.db = some ed) (hed : w.edit s.db = some ed) (hrun : w.run now s.db = .ok (b, u.db))
    (hv : Trailing F u ended v) (ha : ended = true → a.flashes = true) : MountsHandled F r s true a v := by
  have hedited := Write.run_edited hed hrun
  have hkind : w.kind = .secretRow := by
    cases w <;> first | rfl | cases hed
  refine ⟨nofun, fun _ => ⟨ed, hreq, fun sid wid => ?_, fun sid wid hin => ?_⟩, fun _ => rfl, fun _ => ?_,
    fun sid h => ?_, ?_⟩
  · rw [hv.mounts]
    exact hedited.mem sid wid
  · rw [hv.mounts] at hin
    rcases hedited.there sid wid hin with hold | ⟨hsid, hwid⟩
    · exact .inl hold
    · refine .inr ⟨hv.secrets sid hsid, ?_⟩
      rw [hv.workloads]
      exact hwid
  · cases ended with
    | true => exact .inl (ha rfl)
    | false => exact .inr (hv.fails rfl)
  · exact hv.secrets sid (Write.run_secrets hed hrun h)
  · rw [hv.workloads, (Write.run_frame hrun).workloads (by rw [hkind]; nofun) (by rw [hkind]; nofun)]

/-- A request that answers with success after a statement on the mounts is handled as its edit says. -/
theorem endsHaving_statement {w : Write β} {k : β → Call γ} {done : Response} (hreq : r.edit s.db = some ed)
    (ht : t.db = s.db) (hed : w.edit s.db = some ed) (hdone : done.flashes = true)
    (hk : ∀ a u, w.run (t.host.clock t.ticks) s.db = .ok (a, u.db) →
      EndsIf F (fun r => Trailing F u r.toBool) (k a).run u)
    (hidle : ∀ a, Uses (fun _ op => ∀ b, mountStatement op b = false) (k a).run) :
    EndsHaving F (fun _ => mountStatement) (Answered (MountsHandled F r s))
      (orError (Store.write w >>= k) >>= fun _ => pure done : Handler Response).run t := by
  have hnothing : ∀ {u : State} {e : Err}, u.db = s.db → MountsHandled F r s false (.serverError e) u :=
    fun hu => .nothing rfl hu
  refine endsHaving_exceptT_bind.2 (endsHaving_adapt.2 (endsHaving_exceptT_bind.2 (endsHaving_perform.2 ⟨?_, ?_⟩)))
  · rw [show Calls.exec (Op.write w) t = t.write w from rfl, mountStatement_of_edit hed]
    cases hrun : w.run (t.host.clock t.ticks) s.db with
    | error e =>
      -- a violated constraint: the transaction is rolled back
      have hwrite : t.write w = (.error e, { t with ticks := t.ticks + 1 }) := by
        unfold State.write
        rw [ht, hrun]
      rw [hwrite]
      exact hnothing ht
    | ok b =>
      rw [State.write_ok (by rw [ht]; exact hrun)]
      refine (EndsIf.idle (hk b.1 _ hrun) (hidle b.1)).mono fun c r' u hu => ?_
      obtain ⟨rfl, hu⟩ := hu
      cases r' with
      | ok c => exact endsHaving_return.2 (.carried hreq hed hrun hu fun _ => hdone)
      | error e => exact .carried hreq hed hrun hu nofun
  · -- the statement itself fails
    intro hF b hb
    cases hb
    exact hnothing ht

theorem Store.Db.isSome_touchSecret {db : Db} {id sid : ID} {now : Time} :
    ((db.touchSecret id now).secrets.find? sid).isSome = (db.secrets.find? sid).isSome := by
  unfold Db.touchSecret
  apply Table.isSome_find?_modify
  exact fun _ => rfl

/-- Stamping the row of a secret. -/
theorem touchOnChange_trailing (n : Nat) (sid : ID) :
    EndsIf F (fun r => Trailing F t r.toBool) (Store.touchOnChange n sid).run t := by
  unfold Store.touchOnChange
  split
  · exact ends_return.2 (.refl t)
  · refine endsIf_write.2 ⟨?_, fun hF => .failed hF t⟩
    rw [State.write_ok (w := .touchSecret sid) rfl]
    refine ⟨rfl, rfl, fun id h => ?_, nofun⟩
    exact Db.isSome_touchSecret.trans h

theorem touchOnChange_idle (n : Nat) (sid : ID) :
    Uses (fun _ op => ∀ b, mountStatement op b = false) (Store.touchOnChange n sid).run := by
  unfold Store.touchOnChange
  split
  · exact uses_return _
  · exact uses_perform fun _ => rfl

/-- Reading back a secret that is there. -/
theorem secretByID_trailing {sid : ID} (h : (t.db.secrets.find? sid).isSome) :
    EndsIf F (fun r => Trailing F t r.toBool) (Store.secretByID sid).run t := by
  obtain ⟨x, hx⟩ := Option.isSome_iff_exists.1 h
  have hrow : t.db.secretRowByID sid = .ok x := by
    unfold Db.secretRowByID
    rw [hx]
  refine ends_exceptT_bind.2 (endsIf_call.2 ⟨?_, fun hF r hr => ?_⟩)
  · rw [show t.exec (.query fun db => db.secretRowByID sid) = (t.db.secretRowByID sid, t) from rfl, hrow]
    refine ends_exceptT_bind.2 (endsIf_call.2 ⟨ends_return.2 (.refl t), fun hF r hr => ?_⟩)
    cases hr
    exact .failed hF t
  · cases hr
    exact .failed hF t

/-! ## What comes before the statement -/

/-- Looking up reads, and an error it is answered with is no success. -/
def Looks (P : α → Prop) (x : Handler α) (s : State) : Prop :=
  Ends (fun r s' => s' = s ∧ match r with
    | .ok a => P a
    | .error e => e.flashes = false) x.run s

theorem looks_lookupBy {P : α → Prop} {name : String} {byName : String → Call α} (h : Reads P (byName name) s) :
    Looks P (lookupBy name byName) s := by
  unfold lookupBy
  split
  · exact ends_throw.2 ⟨rfl, rfl⟩
  · refine ends_exceptT_bind.2 (ends_attempt.2 (EndsIf.mono h fun r s' hr => ?_))
    obtain ⟨rfl, hr⟩ := hr
    match r, hr with
    | .error .notFound, _ => exact ends_throw.2 ⟨rfl, rfl⟩
    | .error .failed, _ => exact ends_throw.2 ⟨rfl, rfl⟩
    | .ok a, hr => exact ends_return.2 ⟨rfl, hr a rfl⟩

theorem looks_lookupSecret (hwf : s.db.WF) (name : String) :
    Looks (fun sec => s.db.secretRowByName name = .ok sec.toSecretRow) (lookupSecret name) s := by
  refine looks_lookupBy (EndsIf.mono (secretByName_ends name) fun r s' h => ⟨h.1, fun sec hr => ?_⟩)
  subst hr
  obtain ⟨-, hsec, rfl⟩ := h
  exact Db.secretRowByName_of_mem hwf hsec

theorem looks_secretsWorkload (name : String) :
    Looks (fun w => s.db.workloadByName name = .ok w) (secretsWorkload name) s := by
  have hfound : Reads (fun w => s.db.workloadByName name = .ok w) (Store.workloadByName name) s :=
    reads_query (q := fun db => db.workloadByName name)
  refine ends_exceptT_bind.2 (EndsIf.mono (looks_lookupBy hfound) fun r t h => ?_)
  obtain ⟨rfl, h⟩ := h
  cases r with
  | error e => exact ⟨rfl, h⟩
  | ok w =>
    dsimp only
    split
    · exact ends_return.2 ⟨rfl, h⟩
    · exact ends_throw.2 ⟨rfl, rfl⟩

/-- The rule after looking something up. -/
theorem Looks.handled {P : α → Prop} {x : Handler α} {f : α → Handler Response} (hx : Looks P x s)
    (hread : Within [.read] x.run)
    (hf : ∀ a, P a → EndsHaving F (fun _ => mountStatement) (Answered (MountsHandled F r s)) (f a).run s) :
    EndsHaving F (fun _ => mountStatement) (Answered (MountsHandled F r s)) (x >>= f).run s := by
  refine EndsIf.idleE (EndsIf.spared hx) (within_idle hread (by decide)) (fun e t h => ?_) fun a t h => ?_
  · exact .nothing h.2 (by rw [h.1])
  · obtain ⟨rfl, ha⟩ := h
    exact hf a ha

/-- The rule after a function whose error is a value. -/
theorem endsHaving_attempt {ε : Type} {P : Except ε α → State → Prop}
    {Q : Bool → Except Response Response → State → Prop}
    {x : ExceptT ε (Prog Op) α} {f : Except ε α → Handler Response} (hx : EndsIf F P x.run s)
    (hw : Within [.read, .secretFile] x.run)
    (hf : ∀ r t, P r t → EndsHaving F (fun _ => mountStatement) Q (f r).run t) :
    EndsHaving F (fun _ => mountStatement) Q (attempt x >>= f).run s := by
  refine EndsIf.idleE (P := fun r t => ∃ b, r = .ok b ∧
    P b t) (ends_attempt.2 (hx.mono fun r t h => ⟨r, rfl, h⟩))
    (within_idle (within_attempt hw) (by decide)) (fun e t h => ?_) fun b t h => ?_
  · obtain ⟨b, hb, -⟩ := h
    cases hb
  · obtain ⟨c, hc, h⟩ := h
    cases hc
    exact hf b t h

/-! ## The handlers -/

/-- Mounting a secret into a workload, or taking it out. -/
theorem setWorkloadSecretMount_handled {name secret : String} {attach : Bool}
    (hwf : s.db.WF) (hreq : ∀ w x, s.db.workloadByName name = .ok w → s.db.secretRowByName secret = .ok x →
      r.edit s.db = some (if attach then .attach x.id w.id else .detach x.id w.id)) :
    EndsHaving F (fun _ => mountStatement) (Answered (MountsHandled F r s))
      (setWorkloadSecretMount name secret attach).run s := by
  refine (looks_secretsWorkload name).handled (secretsWorkload_within (by decide) name) fun wl hwl => ?_
  split
  · exact endsHaving_return.2 (.nothing rfl rfl)
  refine endsHaving_attempt (secretByName_ends secret).spared (secretByName_within (by decide) secret)
    fun res t ht => ?_
  obtain ⟨rfl, ht⟩ := ht
  match res, ht with
  | .error .notFound, _ => exact endsHaving_throw.2 (.nothing rfl rfl)
  | .error .failed, _ => exact endsHaving_throw.2 (.nothing rfl rfl)
  | .ok sec, ⟨hsec, hname⟩ =>
    have hrow : t.db.secretRowByName secret = .ok sec.toSecretRow := by
      rw [← hname]
      exact Db.secretRowByName_of_mem hwf hsec
    have hedit := hreq wl sec.toSecretRow hwl hrow
    cases attach with
    | true =>
      exact endsHaving_statement hedit rfl rfl rfl (fun n u _ => touchOnChange_trailing n sec.id)
        fun n => touchOnChange_idle n sec.id
    | false =>
      exact endsHaving_statement hedit rfl rfl rfl (fun n u _ => touchOnChange_trailing n sec.id)
        fun n => touchOnChange_idle n sec.id

/-- Creating a secret into the workloads of the form, or into one. -/
theorem createSecretAt_handled {back name : String} {form : SecretForm} {mounts : SecretFields → List ID}
    (hreq : ∀ f : SecretFields, f.mounts = form.mounts.filterMap Go.parseInt →
      r.edit s.db = some (.set s.db.secrets.nextId (mounts f))) :
    EndsHaving F (fun _ => mountStatement) (Answered (MountsHandled F r s))
      (createSecretAt back name form mounts).run s := by
  unfold createSecretAt
  dsimp only
  split
  · exact endsHaving_return.2 (.nothing rfl rfl)
  refine endsHaving_attempt (EndsIf.spared (parseSecretForm_reads form)) (parseSecretForm_within (by decide) form)
    fun res t ht => ?_
  obtain ⟨rfl, hform⟩ := ht
  cases res with
  | error m => exact endsHaving_return.2 (.nothing rfl rfl)
  | ok f =>
    dsimp only
    split
    · exact endsHaving_return.2 (.nothing rfl rfl)
    refine endsHaving_attempt (secretByName_ends name).spared (secretByName_within (by decide) name)
      fun res u hu => ?_
    obtain ⟨rfl, -⟩ := hu
    match res with
    | .ok _ => exact endsHaving_return.2 (.nothing rfl rfl)
    | .error .failed => exact endsHaving_throw.2 (.nothing rfl rfl)
    | .error .notFound =>
      -- the ciphertext is written before the row; it leaves the database as it was
      refine endsHaving_attempt (encryptSecret_ends name f.value) (encryptSecret_within (by decide) (by decide) _ _)
        fun res v hv => ?_
      cases res with
      | error e => exact endsHaving_return.2 (.nothing rfl hv.1.db)
      | ok _ =>
        refine endsHaving_statement (hreq f (hform f rfl).1) hv.1.db rfl rfl (fun id x hx => ?_) fun id => ?_
        · exact secretByID_trailing (Db.createSecret_found hx)
        · have hread : Within [.read] (Store.secretByID id).run :=
            within_bind (within_query (by decide)) fun _ =>
            within_bind (within_query (by decide)) fun _ => within_pure _
          exact within_idle hread (by decide)

/-- Saving a secret. -/
theorem handleSecretSave_handled (hwf : s.db.WF) {name : String} {form : SecretForm}
    (hreq : ∀ x, s.db.secretRowByName name = .ok x →
      r.edit s.db = some (.set x.id (form.mounts.filterMap Go.parseInt))) :
    EndsHaving F (fun _ => mountStatement) (Answered (MountsHandled F r s)) (handleSecretSave name form).run s := by
  refine (looks_lookupSecret hwf name).handled (lookupSecret_within (by decide) name) fun sec hsec => ?_
  refine endsHaving_attempt (EndsIf.spared (parseSecretForm_reads form)) (parseSecretForm_within (by decide) form)
    fun res t ht => ?_
  obtain ⟨rfl, hform⟩ := ht
  cases res with
  | error m => exact endsHaving_return.2 (.nothing rfl rfl)
  | ok f =>
    have hvalue : EndsIf F (fun _ u => u.db = t.db)
        (if f.value = "" then pure () else encryptSecret sec.name f.value : Call Unit).run t := by
      split
      · exact ends_return.2 rfl
      · exact (encryptSecret_ends _ _).mono fun _ _ h => h.1.db
    refine endsHaving_attempt hvalue ?_ fun res u hu => ?_
    · exact within_ite (within_pure _) (encryptSecret_within (by decide) (by decide) _ _)
    · cases res with
      | error e => exact endsHaving_return.2 (.nothing rfl hu)
      | ok _ =>
        have hedit := hreq sec.toSecretRow hsec
        rw [← (hform f rfl).1] at hedit
        show EndsHaving _ _ _ (orError (Store.write (.updateSecret ..)) >>= fun _ => pure (secretsFlash _)).run u
        rw [← bind_pure (Store.write _)]
        exact endsHaving_statement hedit hu rfl rfl (fun _ v _ => ends_return.2 (.refl v)) fun _ => uses_return _

/-! ## Every request that edits mounts -/

end Handlers

/-- The requests that name workloads for a secret or take one back. -/
def Server.Request.editsMounts : Request → Bool
  | .secretCreate .. | .workloadSecretCreate .. | .secretSave .. => true
  | .workloadSecretAttach .. | .workloadSecretDetach .. => true
  | _ => false

section Requests

variable {F : ∀ β : Type, Op β → Bool} {s : State} {r : Request} {faults : List Bool}

theorem serve_handled (hwf : s.db.WF) (hr : r.editsMounts = true) :
    EndsHaving F (fun _ => mountStatement) (MountsHandled F r s) (serve r) s := by
  refine endsHaving_answer ?_
  cases r with
  | secretCreate name form =>
    exact createSecretAt_handled fun f hf => by rw [Request.edit, hf]
  | workloadSecretCreate name secret form =>
    refine (looks_secretsWorkload name).handled (secretsWorkload_within (by decide) name) fun wl hwl => ?_
    exact createSecretAt_handled fun f _ => by rw [Request.edit, hwl]; rfl
  | secretSave name form =>
    exact handleSecretSave_handled hwf fun x hx => by rw [Request.edit, hx]; rfl
  | workloadSecretAttach name secret =>
    exact setWorkloadSecretMount_handled hwf fun w x hw hx => by rw [Request.edit, hw, hx]; rfl
  | workloadSecretDetach name secret =>
    exact setWorkloadSecretMount_handled hwf fun w x hw hx => by rw [Request.edit, hw, hx]; rfl
  | _ => cases hr

theorem State.handle_mounts (hwf : s.db.WF) (hr : r.editsMounts = true) (hfs : (serve r).failsOnly F faults s = true) :
    MountsHandled F r s (s.carriesOut r faults) (s.answer r faults) (s.handle r faults) :=
  (serve_handled hwf hr).runWith_of hfs

end Requests

end Nixbox
