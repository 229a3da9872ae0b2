/-
What each request can write: the kinds of calls its handler makes, whatever the answers, and what
calls of a kind leave as it was.
-/
import Nixbox.Service.System

namespace Nixbox

open Effect Prog Store Nix Directory

/-! ## Kinds of calls -/

/-- What a call reads or writes. -/
inductive Kind
  | read
  | workloadRow
  | revision
  | flakeRow
  | secretRow
  | jobRow
  | index
  | flake
  | workloadFile
  | secretFile
  | prune
  | slot
  deriving DecidableEq, Repr

/-- What a statement writes. -/
@[simp] def Write.kind {α : Type} : Write α → Kind
  | .createWorkload .. | .saveRevision .. => .revision
  | .setWorkloadEnabled .. | .setWorkloadDisplayName .. => .workloadRow
  | .createJob .. | .setJobLogPath .. => .jobRow
  | .createFlakeInput .. | .updateFlakeInput .. | .deleteFlakeInput .. => .flakeRow
  | .createSecret .. | .updateSecret .. | .insertMountOrIgnore .. | .deleteMount .. | .touchSecret ..
  | .deleteSecret .. => .secretRow

/-- The kind of a call. -/
def Op.kind {β : Type} : Op β → Kind
  | .query _ | .checkSyntax _ | .encrypt _ | .readSecretsDir => .read
  | .write w => w.kind
  | .writeIndex _ => .index
  | .writeFlake _ => .flake
  | .writeWorkload .. => .workloadFile
  | .writeSecret .. => .secretFile
  | .removeSecretFile _ => .prune
  | .casBusy | .storeBusy _ | .spawn _ => .slot

/-- Every call the program can make is of one of the kinds. -/
def Within {α : Type} (ks : List Kind) (p : Prog Op α) : Prop := p.Uses fun _ op => op.kind ∈ ks

section Rules

variable {α β ε ε' : Type} {ks : List Kind}

theorem within_pure (a : α) : Within ks (pure a : ExceptT ε (Prog Op) α).run := uses_return a

theorem within_throw (e : ε) : Within ks (throw e : ExceptT ε (Prog Op) α).run := uses_throw e

theorem within_call {op : Op (Except Err α)} (h : op.kind ∈ ks) : Within ks (call op).run := uses_perform h

theorem within_query {q : Db → Except Err α} (h : .read ∈ ks) : Within ks (Store.query q).run := within_call h

theorem within_write {w : Write α} (h : w.kind ∈ ks) : Within ks (Store.write w).run := within_call h

theorem within_lift {p : Prog Op α} (h : Within ks p) : Within ks (ExceptT.lift p : ExceptT ε (Prog Op) α).run :=
  uses_lift h

theorem within_attempt {x : ExceptT ε (Prog Op) α} (h : Within ks x.run) :
    Within ks (attempt x : ExceptT ε' (Prog Op) (Except ε α)).run :=
  uses_lift h

theorem within_bind {x : ExceptT ε (Prog Op) α} {f : α → ExceptT ε (Prog Op) β} (hx : Within ks x.run)
    (hf : ∀ a, Within ks (f a).run) : Within ks (x >>= f).run :=
  uses_exceptT_bind hx hf

theorem within_adapt {x : ExceptT ε (Prog Op) α} {g : ε → ε'} (hx : Within ks x.run) :
    Within ks (x.adapt g).run :=
  uses_adapt hx

theorem within_forEach {f : α → ExceptT ε (Prog Op) β} {l : List α} (hf : ∀ a, Within ks (f a).run) :
    Within ks (forEach f l).run :=
  uses_forEach fun a _ => hf a

theorem within_ite {c : Prop} [Decidable c] {x y : ExceptT ε (Prog Op) α} (hx : Within ks x.run)
    (hy : Within ks y.run) : Within ks (if c then x else y).run := by
  split
  · exact hx
  · exact hy

end Rules

/-! ## The functions the handlers share -/

section Shared

variable {ks : List Kind}

/-- The functions that only query, and the regeneration of index.nix, make calls of these sorts whatever is
asked of a query. -/
theorem secrets_uses {P : ∀ β : Type, Op β → Prop}
    (hq : ∀ (α : Type) (q : Db → Except Err α), P _ (.query q)) :
    Uses P Store.secrets.run :=
  uses_exceptT_bind (uses_perform (hq ..)) fun _ => uses_forEach fun _ _ =>
    uses_exceptT_bind (uses_perform (hq ..)) fun _ => uses_return _

theorem secrets_within (h : .read ∈ ks) : Within ks Store.secrets.run := secrets_uses fun _ _ => h

theorem secretByName_within (h : .read ∈ ks) (name : String) : Within ks (Store.secretByName name).run :=
  within_bind (within_query h) fun _ => within_bind (within_query h) fun _ => within_pure _

theorem checked_within {name : String} {x : Call Unit} (hx : Within ks x.run) :
    Within ks (Nix.checked name x).run := by
  unfold Nix.checked
  split
  · exact within_throw _
  · exact hx

theorem writeWorkload_within (h : .workloadFile ∈ ks) (name content : String) :
    Within ks (Nix.writeWorkload name content).run :=
  checked_within (within_call h)

theorem writeSecret_within (h : .secretFile ∈ ks) (name ciphertext : String) :
    Within ks (Nix.writeSecret name ciphertext).run :=
  checked_within (within_call h)

namespace Server

theorem orError_within {α : Type} {x : Call α} (hx : Within ks x.run) : Within ks (orError x).run :=
  within_adapt hx

theorem lookupBy_uses {P : ∀ β : Type, Op β → Prop} {α : Type} {name : String} {byName : String → Call α}
    (h : Uses P (byName name).run) : Uses P (lookupBy name byName).run := by
  unfold lookupBy
  split
  · exact uses_throw _
  · refine uses_exceptT_bind (uses_lift h) fun r => ?_
    split
    · exact uses_throw _
    · exact uses_throw _
    · exact uses_return _

theorem lookupBy_within {α : Type} {name : String} {byName : String → Call α}
    (h : Within ks (byName name).run) : Within ks (lookupBy name byName).run := lookupBy_uses h

theorem lookupWorkload_within (h : .read ∈ ks) (name : String) : Within ks (lookupWorkload name).run :=
  lookupBy_within (within_query h)

theorem lookupFlakeInput_within (h : .read ∈ ks) (name : String) : Within ks (lookupFlakeInput name).run :=
  lookupBy_within (within_query h)

theorem lookupSecret_within (h : .read ∈ ks) (name : String) : Within ks (lookupSecret name).run :=
  lookupBy_within (secretByName_within h name)

theorem secretsWorkload_within (h : .read ∈ ks) (name : String) : Within ks (secretsWorkload name).run := by
  refine within_bind (lookupWorkload_within h name) fun wl => ?_
  exact within_ite (within_pure _) (within_throw _)

theorem parseSecretForm_within (h : .read ∈ ks) (f : SecretForm) : Within ks (parseSecretForm f).run := by
  unfold parseSecretForm
  dsimp only
  refine within_ite ?_ (within_ite ?_ (within_bind (within_forEach fun v => ?_) fun _ => within_pure _))
  · exact within_throw _
  · exact within_throw _
  unfold parseMount
  split
  · exact within_throw _
  · refine within_bind (within_attempt (within_query h)) fun r => ?_
    split
    · exact within_throw _
    · exact within_ite (within_pure _) (within_throw _)

theorem encryptSecret_within (hr : .read ∈ ks) (hf : .secretFile ∈ ks) (name plaintext : String) :
    Within ks (encryptSecret name plaintext).run :=
  within_bind (within_call hr) fun _ => writeSecret_within hf _ _

theorem regenerateIndex_uses {P : ∀ β : Type, Op β → Prop}
    (hq : ∀ (α : Type) (q : Db → Except Err α), P _ (.query q))
    (hi : ∀ d, P _ (.writeIndex d)) : Uses P regenerateIndex.run := by
  refine uses_exceptT_bind (uses_perform (hq ..)) fun _ => uses_exceptT_bind (uses_forEach fun _ _ => ?_) fun _ => ?_
  · exact uses_exceptT_bind (uses_perform (hq ..)) fun _ => uses_return _
  · refine uses_exceptT_bind (uses_exceptT_bind (secrets_uses hq) fun _ => uses_return _) fun _ => ?_
    exact uses_perform (hi _)

theorem regenerateIndex_within (hr : .read ∈ ks) (hi : .index ∈ ks) : Within ks regenerateIndex.run :=
  regenerateIndex_uses (fun _ _ => hr) fun _ => hi

theorem regenerateFlake_within (hr : .read ∈ ks) (hf : .flake ∈ ks) : Within ks regenerateFlake.run :=
  within_bind (within_query hr) fun _ => within_bind (secrets_within hr) fun _ => within_call hf

theorem giveBack_within (hs : .slot ∈ ks) (e : Err) : Within ks (Jobs.giveBack e).run :=
  within_bind (within_lift (uses_perform hs)) fun _ => within_throw _

theorem start_within (hr : .read ∈ ks) (hj : .jobRow ∈ ks) (hs : .slot ∈ ks) (kind : JobKind)
    (wid : Option ID) (fn : JobFn) : Within ks (Jobs.start kind wid fn).run := by
  refine within_bind (within_lift (uses_perform hs)) fun claimed => within_ite ?_ (within_throw _)
  refine within_bind (within_attempt (within_bind (within_write hj) fun _ => within_query hr)) fun r => ?_
  split
  · exact giveBack_within hs _
  · refine within_bind (within_attempt (within_write hj)) fun r => ?_
    split
    · exact giveBack_within hs _
    · exact within_bind (within_lift (uses_perform hs)) fun _ => within_pure _

theorem answerJob_within {page : String} {x : ExceptT Jobs.StartError (Prog Op) Job} (hx : Within ks x.run) :
    Within ks (answerJob page x).run := by
  refine within_bind (within_attempt hx) fun r => ?_
  split
  · exact within_throw _
  · exact within_throw _
  · exact within_pure _

theorem prepareApply_within (hr : .read ∈ ks) (hi : .index ∈ ks) (hf : .flake ∈ ks) (hp : .prune ∈ ks) :
    Within ks prepareApply.run := by
  refine within_bind (regenerateIndex_within hr hi) fun _ => ?_
  refine within_bind (regenerateFlake_within hr hf) fun _ => within_bind (within_query hr) fun _ => ?_
  refine within_bind (within_forEach fun _ => within_bind (within_query hr) fun _ => within_pure _) fun _ => ?_
  refine within_bind (within_query hr) fun _ => within_bind (secrets_within hr) fun _ => ?_
  refine within_bind ?_ fun _ => within_pure _
  exact within_bind (within_call hr) fun _ =>
    within_bind (within_forEach fun _ => within_call hp) fun _ => within_pure _

theorem startApply_within (hr : .read ∈ ks) (hi : .index ∈ ks) (hf : .flake ∈ ks) (hp : .prune ∈ ks)
    (hj : .jobRow ∈ ks) (hs : .slot ∈ ks) (wid : Option ID) (mode : RebuildMode) :
    Within ks (startApply wid mode).run :=
  within_bind (within_adapt (prepareApply_within hr hi hf hp)) fun _ => start_within hr hj hs _ _ _

end Server

end Shared

/-! ## The requests -/

namespace Server

/-- The kinds of calls a request can make. -/
@[simp] def Request.kinds : Request → List Kind
  | .workloadCreate _ | .workloadSave .. | .workloadRestore .. => [.read, .workloadFile, .revision]
  | .workloadEnable _ | .workloadDisable _ | .workloadRename .. => [.read, .workloadRow]
  | .workloadApply .. | .flakeApply _ | .secretApply _ | .rebuild =>
    [.read, .index, .flake, .prune, .jobRow, .slot]
  | .workloadDestroy .. => [.read, .workloadRow, .index, .jobRow, .slot]
  | .secretCreate .. | .workloadSecretCreate .. | .secretSave .. => [.read, .secretFile, .secretRow]
  | .workloadSecretAttach .. | .workloadSecretDetach .. | .secretDelete _ => [.read, .secretRow]
  | .flakeCreate .. | .flakeSave .. | .flakeDelete _ => [.read, .flakeRow]

theorem handleWorkloadCreate_within (f : WorkloadForm) :
    Within [.read, .workloadFile, .revision] (handleWorkloadCreate f).run := by
  unfold handleWorkloadCreate
  dsimp only
  split
  · exact within_pure _
  · refine within_bind (within_attempt (within_query (by decide))) fun r => ?_
    split
    · exact within_pure _
    · exact within_throw _
    · refine within_bind ?_ fun _ => within_bind ?_ fun _ => within_pure _
      · exact orError_within (writeWorkload_within (by decide) _ _)
      · refine orError_within (within_bind (within_write ?_) fun _ => within_query (by decide))
        simp

theorem handleWorkloadSave_within (name content : String) (ports protos : List String) :
    Within [.read, .workloadFile, .revision] (handleWorkloadSave name content ports protos).run := by
  refine within_bind (lookupWorkload_within (by decide) name) fun wl => ?_
  dsimp only
  split
  · exact within_pure _
  · refine within_bind (orError_within (writeWorkload_within (by decide) _ _)) fun _ => ?_
    refine within_bind (orError_within (within_write (by simp))) fun _ => ?_
    refine within_bind (within_lift (uses_perform (by simp [Op.kind]))) fun r => ?_
    split
    · exact within_pure _
    · exact within_pure _

theorem handleWorkloadRestore_within (name id : String) :
    Within [.read, .workloadFile, .revision] (handleWorkloadRestore name id).run := by
  refine within_bind (lookupWorkload_within (by decide) name) fun wl => ?_
  split
  · exact within_throw _
  · refine within_bind (orError_within (within_query (by decide))) fun revs => ?_
    split
    · exact within_throw _
    · refine within_bind (orError_within (writeWorkload_within (by decide) _ _)) fun _ => ?_
      exact within_bind (orError_within (within_write (by simp))) fun _ => within_pure _

theorem setEnabled_within (name : String) (enabled : Bool) :
    Within [.read, .workloadRow] (setEnabled name enabled).run :=
  within_bind (lookupWorkload_within (by decide) name) fun _ =>
    within_bind (orError_within (within_write (by simp))) fun _ => within_pure _

theorem handleWorkloadRename_within (name displayName : String) :
    Within [.read, .workloadRow] (handleWorkloadRename name displayName).run := by
  refine within_bind (lookupWorkload_within (by decide) name) fun wl => ?_
  dsimp only
  split
  · exact within_throw _
  · exact within_bind (orError_within (within_write (by simp))) fun _ => within_pure _

theorem handleWorkloadDestroy_within (name confirm deleteData : String) :
    Within [.read, .workloadRow, .index, .jobRow, .slot] (handleWorkloadDestroy name confirm deleteData).run := by
  refine within_bind (lookupWorkload_within (by decide) name) fun wl => ?_
  split
  · refine within_bind (orError_within (within_write (by simp))) fun _ => ?_
    refine within_bind (orError_within (regenerateIndex_within (by decide) (by decide))) fun _ => ?_
    exact answerJob_within (start_within (by decide) (by decide) (by decide) _ _ _)
  · exact within_throw _

theorem createSecretAt_within (back name : String) (form : SecretForm) (mounts : SecretFields → List ID) :
    Within [.read, .secretFile, .secretRow] (createSecretAt back name form mounts).run := by
  unfold createSecretAt
  dsimp only
  split
  · exact within_pure _
  · refine within_bind (within_attempt (parseSecretForm_within (by decide) form)) fun r => ?_
    split
    · exact within_pure _
    · split
      · exact within_pure _
      · refine within_bind (within_attempt (secretByName_within (by decide) name)) fun r => ?_
        split
        · exact within_pure _
        · exact within_throw _
        · refine within_bind (within_attempt (encryptSecret_within (by decide) (by decide) _ _)) fun r => ?_
          split
          · exact within_pure _
          · refine within_bind (orError_within (within_bind (within_write (by simp)) fun _ => ?_))
              fun _ => within_pure _
            exact within_bind (within_query (by decide)) fun _ => within_bind (within_query (by decide))
              fun _ => within_pure _

theorem handleSecretSave_within (name : String) (form : SecretForm) :
    Within [.read, .secretFile, .secretRow] (handleSecretSave name form).run := by
  refine within_bind (lookupSecret_within (by decide) name) fun sec => ?_
  refine within_bind (within_attempt (parseSecretForm_within (by decide) form)) fun r => ?_
  split
  · exact within_pure _
  · refine within_bind (within_attempt ?_) fun r => ?_
    · split
      · exact within_pure _
      · exact encryptSecret_within (by decide) (by decide) _ _
    · split
      · exact within_pure _
      · exact within_bind (orError_within (within_write (by simp))) fun _ => within_pure _

theorem setWorkloadSecretMount_within (name secret : String) (attach : Bool) :
    Within [.read, .secretRow] (setWorkloadSecretMount name secret attach).run := by
  refine within_bind (secretsWorkload_within (by decide) name) fun wl => ?_
  split
  · exact within_pure _
  · refine within_bind (within_attempt (secretByName_within (by decide) secret)) fun r => ?_
    have htouch : ∀ n sid, Within [.read, .secretRow] (Store.touchOnChange n sid).run := by
      intro n sid
      unfold Store.touchOnChange
      split
      · exact within_pure _
      · exact within_write (by simp)
    split
    · exact within_throw _
    · exact within_throw _
    · refine within_bind (orError_within ?_) fun _ => within_pure _
      split
      · exact within_bind (within_write (by simp)) fun n => htouch n _
      · exact within_bind (within_write (by simp)) fun n => htouch n _

theorem handleFlakeCreate_within (name url follows : String) :
    Within [.read, .flakeRow] (handleFlakeCreate name url follows).run := by
  unfold handleFlakeCreate
  dsimp only
  split
  · exact within_pure _
  · split
    · exact within_pure _
    · refine within_bind (within_attempt (within_query (by decide))) fun r => ?_
      split
      · exact within_pure _
      · exact within_throw _
      · refine within_bind (orError_within (within_bind (within_write (by simp)) fun _ => ?_))
          fun _ => within_pure _
        exact within_query (by decide)

theorem handleFlakeSave_within (name url follows : String) :
    Within [.read, .flakeRow] (handleFlakeSave name url follows).run := by
  refine within_bind (lookupFlakeInput_within (by decide) name) fun f => ?_
  dsimp only
  split
  · exact within_pure _
  · exact within_bind (orError_within (within_write (by simp))) fun _ => within_pure _

theorem handler_within (r : Request) : Within r.kinds (handler r).run := by
  cases r with
  | workloadCreate f => exact handleWorkloadCreate_within f
  | workloadSave name content ports protos => exact handleWorkloadSave_within name content ports protos
  | workloadRestore name id => exact handleWorkloadRestore_within name id
  | workloadEnable name => exact setEnabled_within name true
  | workloadDisable name => exact setEnabled_within name false
  | workloadRename name displayName => exact handleWorkloadRename_within name displayName
  | workloadApply name mode =>
    refine within_bind (lookupWorkload_within (by simp) name) fun wl => answerJob_within ?_
    apply startApply_within <;> simp
  | flakeApply mode | secretApply mode =>
    refine answerJob_within ?_
    apply startApply_within <;> simp
  | rebuild =>
    refine answerJob_within ?_
    apply startApply_within <;> simp
  | workloadDestroy name confirm deleteData => exact handleWorkloadDestroy_within name confirm deleteData
  | secretCreate name form => exact createSecretAt_within _ _ form _
  | workloadSecretCreate name secret form =>
    exact within_bind (secretsWorkload_within (by simp) name) fun wl =>
      createSecretAt_within _ _ form _
  | secretSave name form => exact handleSecretSave_within name form
  | workloadSecretAttach name secret => exact setWorkloadSecretMount_within name secret true
  | workloadSecretDetach name secret => exact setWorkloadSecretMount_within name secret false
  | secretDelete name =>
    exact within_bind (lookupSecret_within (by simp) name) fun _ =>
      within_bind (orError_within (within_write (by simp))) fun _ => within_pure _
  | flakeCreate name url follows => exact handleFlakeCreate_within name url follows
  | flakeSave name url follows => exact handleFlakeSave_within name url follows
  | flakeDelete name =>
    exact within_bind (lookupFlakeInput_within (by simp) name) fun _ =>
      within_bind (orError_within (within_write (by simp))) fun _ => within_pure _

/-- A request makes calls of its kinds only. -/
theorem serve_within (r : Request) : Within r.kinds (serve r) := by
  refine uses_bind (handler_within r) fun x => ?_
  cases x with
  | ok a => exact uses_pure a
  | error a => exact uses_pure a

end Server

end Nixbox
