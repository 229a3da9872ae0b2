/-
What the service writes and removes stays in the state flake, the logs of its jobs and the data of its containers,
whatever names the requests come with and however they overlap each other and the steps of the job in flight.
-/
import Nixbox.Jobs.Steps
import Nixbox.Lib.Rely
import Nixbox.Nix.NamePatterns
import Nixbox.Server.Footprint
import Nixbox.Service.Threads

namespace Nixbox

open Effect Prog Store Server Directory Go
open Nix hiding FlakeInput

/-! ## Paths -/

/-- The path is one level below the directory. -/
def Child (dir path : List Char) : Prop := ∃ seg, IsSegment seg ∧ path = dir ++ '/' :: seg

/-- The files of the state flake: two at the top, and one for every workload and for every secret. -/
inductive StateFile (dir : String) : List Char → Prop
  | index : StateFile dir (joinPath [dir, "index.nix"])
  | flake : StateFile dir (joinPath [dir, "flake.nix"])
  | workload {path : List Char} (h : Child (joinPath [dir, "workloads"]) path) :
    StateFile dir (path ++ "/workload.nix".toList)
  | secret {path : List Char} (h : Child (joinPath [dir, "secrets"]) (path ++ ".age".toList)) :
    StateFile dir (path ++ ".age".toList)

/-- `os.CreateTemp` in the directory of a file, with the number it has picked. -/
def tempFile (path : List Char) (n : Nat) : List Char := pathDir path ++ (".tmp-" ++ toString n).toList

/-- A temporary file beside a file of the state flake. -/
def TempFile (dir : String) (path : List Char) : Prop := ∃ file n, StateFile dir file ∧ path = tempFile file n

/-- The directory of a workload in the state flake, or that of a container's data. -/
def WorkloadDir (dir : String) (path : List Char) : Prop :=
  Child (joinPath [dir, "workloads"]) path ∨ Child "/var/lib/nixos-containers".toList path

/-- The directories that are made for files. -/
def FileDir (dir : String) (path : List Char) : Prop :=
  path = joinPath [dir, "workloads"] ∨ path = joinPath [dir, "secrets"] ∨ Child (joinPath [dir, "workloads"]) path

/-- The log of some job, in the directory of the logs. -/
def LogFile (logs : String) (path : List Char) : Prop := ∃ id : ID, path = joinPath [logs, Jobs.jobLog id]

/-- The files `writeFileAtomic` creates, renames or removes for a path. -/
def writtenAtomic (n : Nat) (path : List Char) : List (List Char) := [tempFile path n, path]

/-- The files a call creates, writes or removes, `n` being the number in the name of the temporary one. -/
def Op.touched (dir : String) (n : Nat) {β : Type} : Op β → List (List Char)
  | .writeIndex _ => writtenAtomic n (joinPath [dir, "index.nix"])
  | .writeFlake _ => writtenAtomic n (joinPath [dir, "flake.nix"])
  | .writeWorkload name _ => writtenAtomic n (workloadFilePath dir name)
  | .writeSecret file _ => writtenAtomic n (joinPath [dir, "secrets", file])
  | .removeSecretFile file => [joinPath [dir, "secrets", file]]
  -- the database, what is only read, and what happens in memory or in the job
  | .query _ | .write _ | .checkSyntax _ | .readSecretsDir | .encrypt _ | .casBusy | .storeBusy _ | .spawn _ => []

/-- The directories a call makes where they are missing. -/
def Op.made (dir : String) {β : Type} : Op β → List (List Char)
  | .writeWorkload name _ => [joinPath [dir, "workloads"], joinPath [dir, "workloads", name]]
  | .writeSecret .. => [joinPath [dir, "secrets"]]
  | _ => []

/-- The file a job writes on its way: it creates its log first, and has it open until its function has returned. -/
def Running.writes (logs : String) (j : Running) : Option (List Char) :=
  if j.phase = .release ∨ j.phase = .exited then none else some (joinPath [logs, Jobs.jobLog j.row])

/-- The directory the job removes when it goes on, with all that is in it. -/
def Running.removes (dir : String) (j : Running) : Option (List Char) :=
  match j.phase, j.fn with
  | .removeDir, .destroy name _ _ _ => some (joinPath [dir, "workloads", name])
  | .removeData, .destroy name _ type deleteData =>
    let dataDir := (workloadType type).dataDir name
    if deleteData && dataDir != "" then some dataDir.toList else none
  | _, _ => none

/-! ## The invariant -/

/-- Names the path-safety rule lets through. -/
def PathSafe (name : String) : Prop := nameRe 61 name = true

/-- A workload to be destroyed has a safe name. -/
def JobFn.Named : JobFn → Prop
  | .destroy name _ _ _ => PathSafe name
  | .apply .. => True

/-- A call with safe names only. -/
def Op.Contained (β : Type) : Op β → Prop
  | .writeWorkload name _ => PathSafe name
  | .writeSecret file _ | .removeSecretFile file => ∃ name, PathSafe name ∧ file = secretFile name
  | .spawn job => job.fn.Named
  | _ => True

/-- What is in `secrets/`, and what a job is about, has a safe name. -/
structure State.Filed (s : State) : Prop where
  secrets : ∀ e ∈ s.disk.secrets.entries, ∃ name, PathSafe name ∧ e.1 = secretFile name
  job : ∀ j, s.job = some j → j.fn.Named

section Invariant

variable {β : Type} {op : Op β} {s s' : State} {i : Jobs.Input} {dir name file : String}

theorem mem_put {α : Type} {d : Dir α} {n : String} {a : α} {e : String × α} (h : e ∈ (d.put n a).entries) :
    e.1 = n ∨ ∃ e' ∈ d.entries, e'.1 = e.1 := by
  rcases Dir.mem_names_putEntry d.entries |>.1 (List.mem_map_of_mem h) with hn | hmem
  · exact .inl hn
  · exact .inr (List.mem_map.1 hmem)

theorem filed_fresh (h : Host) : (State.fresh h).Filed := by
  constructor
  · intro e he
    cases List.not_mem_nil he
  · intro j hj
    exact nomatch (show none = some j from hj)

/-- Only calls on `secrets/` and the start of a job have anything to keep. -/
theorem Op.Contained.exec (hop : op.Contained) (h : s.Filed) : (s.exec op).2.Filed := by
  cases op with
  | write w =>
    show (s.write w).2.Filed
    unfold State.write
    split <;> exact ⟨h.secrets, h.job⟩
  | writeSecret file ciphertext =>
    show (s.writeSecret file ciphertext).2.Filed
    unfold State.writeSecret
    split
    · exact h
    · refine ⟨fun e he => ?_, h.job⟩
      rcases mem_put he with heq | ⟨e', he', heq⟩
      · rw [heq]
        exact hop
      · rw [← heq]
        exact h.secrets e' he'
  | removeSecretFile file => exact ⟨fun e he => h.secrets e (List.mem_of_mem_filter he), h.job⟩
  | spawn job => exact ⟨h.secrets, fun j hj => Option.some.inj hj ▸ hop⟩
  | query | checkSyntax | readSecretsDir | writeIndex | writeFlake | writeWorkload | encrypt | casBusy | storeBusy =>
    exact ⟨h.secrets, h.job⟩

/-- A job keeps its function, and removes no ciphertext. -/
theorem filed_job (hs : Jobs.step i s = some s') (h : s.Filed) : s'.Filed := by
  obtain ⟨j, t, j', hj, hst, rfl⟩ := Jobs.step_some hs
  have hsecrets : t.disk.secrets = s.disk.secrets := by cases hst <;> rfl
  refine ⟨?_, fun j₁ hj₁ => ?_⟩
  · show ∀ e ∈ t.disk.secrets.entries, _
    rw [hsecrets]
    exact h.secrets
  · rw [← Option.some.inj hj₁, hst.frame.1]
    exact h.job j hj

end Invariant

/-! ## The handlers -/

/-- Every call the program makes is contained, if what it reads was filed. -/
def Contained {α : Type} (p : Prog Op α) (E : α → Prop) : Prop := p.Relies State.Filed Op.Contained E

section Handlers

variable {α β ε : Type} {ks : List Kind} {name : String}

/-- Calls of the other kinds touch nothing that has a name. -/
theorem contained_within {p : Prog Op α} (h : Within ks p)
    (hks : ∀ k ∈ ks, k ≠ .workloadFile ∧ k ≠ .secretFile ∧ k ≠ .prune ∧ k ≠ .slot) :
    Contained p fun _ => True := by
  refine Uses.relies (Uses.mono h fun β op hop => ?_)
  have hkind := hks _ hop
  cases op with
  | writeWorkload => exact absurd rfl hkind.1
  | writeSecret => exact absurd rfl hkind.2.1
  | removeSecretFile => exact absurd rfl hkind.2.2.1
  | spawn => exact absurd rfl hkind.2.2.2
  | query | write | checkSyntax | readSecretsDir | writeIndex | writeFlake | encrypt | casBusy | storeBusy => trivial

/-- So it is while reading, and while the index and the flake are written. -/
theorem contained_generates {p : Prog Op α} (h : Within [.read, .index, .flake] p) : Contained p fun _ => True :=
  contained_within h (by decide)

theorem contained_bind {x : ExceptT ε (Prog Op) α} {f : α → ExceptT ε (Prog Op) β}
    (hx : Contained x.run fun _ => True) (hf : ∀ a, Contained (f a).run fun _ => True) :
    Contained (x >>= f).run fun _ => True := by
  refine Relies.seqE (Q := fun _ => True) (hx.mono fun r _ => ?_) fun a _ => hf a
  cases r <;> trivial

theorem contained_pure (a : α) : Contained (pure a : ExceptT ε (Prog Op) α).run fun _ => True :=
  relies_return.2 trivial

theorem contained_throw (e : ε) : Contained (throw e : ExceptT ε (Prog Op) α).run fun _ => True :=
  relies_throw.2 trivial

theorem contained_perform {op : Op β} (h : op.Contained) : Contained (perform op) fun _ => True :=
  relies_perform h fun _ _ => trivial

theorem contained_orError {x : Call α} (hx : Contained x.run fun _ => True) :
    Contained (orError x).run fun _ => True :=
  relies_adapt.2 (hx.mono fun _ _ => trivial)

theorem contained_attempt {ε' : Type} {x : ExceptT ε (Prog Op) α} (hx : Contained x.run fun _ => True) :
    Contained (attempt x : ExceptT ε' (Prog Op) (Except ε α)).run fun _ => True :=
  relies_lift.2 hx

theorem contained_ite {c : Prop} [Decidable c] {x y : ExceptT ε (Prog Op) α} (hx : Contained x.run fun _ => True)
    (hy : Contained y.run fun _ => True) : Contained (if c then x else y).run fun _ => True := by
  split
  · exact hx
  · exact hy

theorem checked_contained {x : Call Unit} (hx : PathSafe name → Contained x.run fun _ => True) :
    Contained (Nix.checked name x).run fun _ => True := by
  unfold Nix.checked
  split
  · exact contained_throw _
  · rename_i hname
    exact hx (validateName_ok.1 hname)

theorem writeWorkload_contained (name content : String) :
    Contained (Nix.writeWorkload name content).run fun _ => True :=
  checked_contained fun hname => contained_perform hname

theorem writeSecret_contained (name ciphertext : String) :
    Contained (Nix.writeSecret name ciphertext).run fun _ => True :=
  checked_contained fun hname => contained_perform ⟨name, hname, rfl⟩

/-- What is pruned was read from `secrets/` before. -/
theorem pruneSecrets_contained (keep : List String) : Contained (Nix.pruneSecrets keep).run fun _ => True := by
  refine Relies.seqE (Q := fun entries => ∀ e ∈ entries, ∃ name, PathSafe name ∧
    e.1 = secretFile name) ?_ fun entries h => ?_
  · refine relies_perform trivial fun r hr => ?_
    rcases hr with ⟨s, hs, rfl⟩ | hfault
    · exact hs.secrets
    · cases hfault
      trivial
  · refine contained_bind (relies_forEach fun e he => ?_) fun _ => contained_pure _
    exact contained_perform (h e (List.mem_of_mem_filter he))

theorem start_contained {kind : JobKind} {wid : Option ID} {fn : JobFn} (hfn : fn.Named) :
    Contained (Jobs.start kind wid fn).run fun _ => True := by
  have hgive : ∀ e, Contained (Jobs.giveBack e).run fun _ => True := fun e =>
    contained_bind (relies_lift.2 (contained_perform trivial)) fun _ => contained_throw _
  refine contained_bind (relies_lift.2 (contained_perform trivial)) fun claimed => contained_ite ?_ (contained_throw _)
  refine contained_bind
    (contained_attempt (contained_bind (contained_perform trivial) fun _ => contained_perform trivial))
    fun r => ?_
  split
  · exact hgive _
  · refine contained_bind (contained_attempt (contained_perform trivial)) fun r => ?_
    split
    · exact hgive _
    · exact contained_bind (relies_lift.2 (contained_perform hfn)) fun _ => contained_pure _

theorem answerJob_contained {page : String} {x : ExceptT Jobs.StartError (Prog Op) Job}
    (hx : Contained x.run fun _ => True) : Contained (answerJob page x).run fun _ => True := by
  refine contained_bind (contained_attempt hx) fun r => ?_
  split
  · exact contained_throw _
  · exact contained_throw _
  · exact contained_pure _

/-- A workload looked up has the name that was asked for, a safe one. -/
theorem lookupWorkload_contained (name : String) :
    Contained (lookupWorkload name).run fun r => ∀ wl, r = .ok wl → PathSafe wl.name := by
  unfold lookupWorkload lookupBy
  split
  · exact relies_throw.2 nofun
  · rename_i hname
    refine Relies.seqE (Q := fun r => ∀ wl : Workload, r = .ok wl → wl.name = name) ?_ fun r hr => ?_
    · refine relies_lift.2 (relies_perform trivial fun r hr wl hwl => ?_)
      rcases hr with ⟨s, -, rfl⟩ | hfault
      · exact (workloadByName_ok hwl).2
      · rw [hwl] at hfault
        cases hfault
    · split
      · exact relies_throw.2 nofun
      · exact relies_throw.2 nofun
      · rename_i wl
        refine relies_return.2 fun wl' hwl' => ?_
        cases hwl'
        rw [hr wl rfl]
        exact validateName_ok.1 hname

/-- The sequence rule behind it. -/
theorem withWorkload_contained {f : Workload → Handler β}
    (hf : ∀ wl : Workload, PathSafe wl.name → Contained (f wl).run fun _ => True) :
    Contained (lookupWorkload name >>= f).run fun _ => True := by
  refine Relies.seqE ((lookupWorkload_contained name).mono fun r hr => ?_) hf
  cases r with
  | ok wl => exact hr wl rfl
  | error => trivial

theorem handleWorkloadDestroy_contained (name confirm deleteData : String) :
    Contained (handleWorkloadDestroy name confirm deleteData).run fun _ => True := by
  refine withWorkload_contained fun wl hwl => ?_
  split
  · refine contained_bind (contained_orError (contained_perform trivial)) fun _ => ?_
    refine contained_bind (contained_orError ?_) fun _ => answerJob_contained (start_contained hwl)
    exact contained_generates (regenerateIndex_within (by decide) (by decide))
  · exact contained_throw _

theorem startApply_contained (wid : Option ID) (mode : RebuildMode) :
    Contained (startApply wid mode).run fun _ => True := by
  refine contained_bind (relies_adapt.2 (Relies.mono (E := fun _ => True) ?_ fun _ _ => trivial)) fun _ =>
    start_contained trivial
  refine contained_bind (contained_generates (regenerateIndex_within (by decide) (by decide))) fun _ => ?_
  refine contained_bind (contained_generates (regenerateFlake_within (by decide) (by decide))) fun _ => ?_
  refine contained_bind (contained_perform trivial) fun _ => ?_
  refine contained_bind (contained_generates (within_forEach fun _ => ?_)) fun _ => ?_
  · exact within_bind (within_query (by decide)) fun _ => within_pure _
  refine contained_bind (contained_perform trivial) fun _ => ?_
  refine contained_bind (contained_generates (secrets_within (by decide))) fun _ => ?_
  exact contained_bind (pruneSecrets_contained _) fun _ => contained_pure _

theorem handleWorkloadCreate_contained (f : WorkloadForm) : Contained (handleWorkloadCreate f).run fun _ => True := by
  unfold handleWorkloadCreate
  dsimp only
  split
  · exact contained_pure _
  · refine contained_bind (contained_attempt (contained_perform trivial)) fun r => ?_
    split
    · exact contained_pure _
    · exact contained_throw _
    · refine contained_bind (contained_orError (writeWorkload_contained _ _)) fun _ => ?_
      refine contained_bind (contained_orError ?_) fun _ => contained_pure _
      exact contained_bind (contained_perform trivial) fun _ => contained_perform trivial

theorem handleWorkloadSave_contained (name content : String) (ports protos : List String) :
    Contained (handleWorkloadSave name content ports protos).run fun _ => True := by
  refine withWorkload_contained fun wl _ => ?_
  dsimp only
  split
  · exact contained_pure _
  · refine contained_bind (contained_orError (writeWorkload_contained _ _)) fun _ => ?_
    refine contained_bind (contained_orError (contained_perform trivial)) fun _ => ?_
    refine contained_bind (relies_lift.2 (contained_perform trivial)) fun r => ?_
    split
    · exact contained_pure _
    · exact contained_pure _

theorem handleWorkloadRestore_contained (name id : String) :
    Contained (handleWorkloadRestore name id).run fun _ => True := by
  refine withWorkload_contained fun wl _ => ?_
  split
  · exact contained_throw _
  · refine contained_bind (contained_orError (contained_perform trivial)) fun revs => ?_
    split
    · exact contained_throw _
    · refine contained_bind (contained_orError (writeWorkload_contained _ _)) fun _ => ?_
      exact contained_bind (contained_orError (contained_perform trivial)) fun _ => contained_pure _

theorem encryptSecret_contained (name plaintext : String) :
    Contained (encryptSecret name plaintext).run fun _ => True :=
  contained_bind (contained_perform trivial) fun _ => writeSecret_contained _ _

theorem parseSecretForm_contained (f : SecretForm) : Contained (parseSecretForm f).run fun _ => True :=
  contained_generates (parseSecretForm_within (by decide) f)

theorem createSecretAt_contained (back name : String) (form : SecretForm) (mounts : SecretFields → List ID) :
    Contained (createSecretAt back name form mounts).run fun _ => True := by
  unfold createSecretAt
  dsimp only
  split
  · exact contained_pure _
  refine contained_bind (contained_attempt (parseSecretForm_contained form)) fun r => ?_
  split
  · exact contained_pure _
  refine contained_ite (contained_pure _) (contained_bind (contained_attempt ?_) fun r => ?_)
  · exact contained_generates (secretByName_within (by decide) name)
  split
  · exact contained_pure _
  · exact contained_throw _
  · refine contained_bind (contained_attempt (encryptSecret_contained _ _)) fun r => ?_
    split
    · exact contained_pure _
    · refine contained_bind (contained_orError (contained_bind (contained_perform trivial) fun _ => ?_)) fun _ =>
        contained_pure _
      exact contained_bind (contained_perform trivial) fun _ => contained_bind (contained_perform trivial) fun _ =>
        contained_pure _

theorem handleSecretSave_contained (name : String) (form : SecretForm) :
    Contained (handleSecretSave name form).run fun _ => True := by
  refine contained_bind (contained_generates (lookupSecret_within (by decide) name)) fun sec => ?_
  refine contained_bind (contained_attempt (parseSecretForm_contained form)) fun r => ?_
  split
  · exact contained_pure _
  refine contained_bind (contained_attempt (contained_ite (contained_pure _) (encryptSecret_contained _ _))) fun r => ?_
  split
  · exact contained_pure _
  · exact contained_bind (contained_orError (contained_perform trivial)) fun _ => contained_pure _

/-- Every request makes contained calls only. -/
theorem serve_contained (r : Request) : Contained (serve r) fun _ => True := by
  have hplain : (∀ k ∈ r.kinds, k ≠ .workloadFile ∧ k ≠ .secretFile ∧ k ≠ .prune ∧ k ≠ .slot) →
      Contained (handler r).run fun _ => True := contained_within (handler_within r)
  have hhandler : Contained (handler r).run fun _ => True := by
    cases r with
    | workloadCreate f => exact handleWorkloadCreate_contained f
    | workloadSave name content ports protos => exact handleWorkloadSave_contained name content ports protos
    | workloadRestore name id => exact handleWorkloadRestore_contained name id
    | workloadApply name mode =>
      exact withWorkload_contained fun wl _ => answerJob_contained (startApply_contained _ _)
    | flakeApply mode | secretApply mode => exact answerJob_contained (startApply_contained _ _)
    | rebuild => exact answerJob_contained (startApply_contained _ _)
    | workloadDestroy name confirm deleteData => exact handleWorkloadDestroy_contained name confirm deleteData
    | secretCreate name form => exact createSecretAt_contained _ _ form _
    | workloadSecretCreate name secret form =>
      refine contained_bind ?_ fun wl => createSecretAt_contained _ _ form _
      exact contained_generates (secretsWorkload_within (by decide) name)
    | secretSave name form => exact handleSecretSave_contained name form
    | workloadEnable | workloadDisable | workloadRename | workloadSecretAttach | workloadSecretDetach | secretDelete
    | flakeCreate | flakeSave | flakeDelete => exact hplain (by simp)
  refine relies_bind.2 (Relies.mono hhandler fun x _ => ?_)
  cases x with
  | ok a => exact relies_pure.2 trivial
  | error a => exact relies_pure.2 trivial

end Handlers

/-! ## Every run -/

section Runs

variable {dir name file : String}

theorem segment_joined {sub seg : String} (hsub : IsSegment sub.toList) (hseg : IsSegment seg.toList) :
    Child (joinPath [dir, sub]) (joinPath [dir, sub, seg]) := ⟨_, hseg, joinPath_snoc hsub hseg [dir]⟩

theorem workloads_isSegment : IsSegment "workloads".toList := ⟨⟨by decide, by decide, by decide⟩, by decide⟩

/-- The file of a secret with a safe name. -/
theorem stateFile_secret (h : ∃ name, PathSafe name ∧ file = secretFile name) :
    StateFile dir (joinPath [dir, "secrets", file]) := by
  obtain ⟨name, hname, rfl⟩ := h
  have heq := secretFilePath_eq hname dir
  have hage : joinPath [dir, "secrets"] ++ '/' :: (name.toList ++ ".age".toList) =
      (joinPath [dir, "secrets"] ++ '/' :: name.toList) ++ ".age".toList := by simp
  rw [show joinPath [dir, "secrets", secretFile name] = _ from heq, hage]
  refine .secret ⟨name.toList ++ ".age".toList, ?_, hage.symm⟩
  have hseg := (nameRe_isSegment hname).2
  rw [secretFile, String.toList_append] at hseg
  exact hseg

/-- A file of the state flake is written through a temporary one beside it. -/
theorem writtenAtomic_contained {n : Nat} {path : List Char} (h : StateFile dir path) :
    ∀ p ∈ writtenAtomic n path, StateFile dir p ∨ TempFile dir p := by
  intro p hp
  rcases List.mem_cons.1 hp with rfl | hp
  · exact .inr ⟨path, n, h, rfl⟩
  · rw [List.mem_singleton.1 hp]
    exact .inl h

/-- A contained call touches files of the state flake. -/
theorem Op.Contained.touched {β : Type} {op : Op β} {n : Nat} (h : op.Contained) :
    ∀ path ∈ op.touched dir n, StateFile dir path ∨ TempFile dir path := by
  cases op with
  | writeIndex => exact writtenAtomic_contained .index
  | writeFlake => exact writtenAtomic_contained .flake
  | writeWorkload name content =>
    refine writtenAtomic_contained ?_
    rw [workloadFilePath_eq h]
    exact .workload ⟨_, (nameRe_isSegment h).1, rfl⟩
  | writeSecret file _ => exact writtenAtomic_contained (stateFile_secret h)
  | removeSecretFile file =>
    intro path hpath
    rw [List.mem_singleton.1 hpath]
    exact .inl (stateFile_secret h)
  | query | write | checkSyntax | readSecretsDir | encrypt | casBusy | storeBusy | spawn => exact nofun

/-- The directories it makes are those of these files. -/
theorem Op.Contained.made {β : Type} {op : Op β} (h : op.Contained) : ∀ path ∈ op.made dir, FileDir dir path := by
  intro path hpath
  cases op with
  | writeWorkload name content =>
    rcases List.mem_cons.1 hpath with rfl | hpath
    · exact .inl rfl
    · rw [List.mem_singleton.1 hpath]
      exact .inr (.inr (segment_joined workloads_isSegment (nameRe_isSegment h).1))
  | writeSecret file _ =>
    rw [List.mem_singleton.1 hpath]
    exact .inr (.inl rfl)
  | _ => cases hpath

/-- A job writes its own log. -/
theorem Running.writes_log {logs : String} {j : Running} : ∀ path ∈ j.writes logs, LogFile logs path := by
  intro path hpath
  unfold Running.writes at hpath
  split at hpath
  · cases hpath
  · cases hpath
    exact ⟨j.row, rfl⟩

/-- No type has its data anywhere else. -/
theorem dataDir_eq (type name : String) : (workloadType type).dataDir name = "" ∨
    (workloadType type).dataDir name = "/var/lib/nixos-containers/" ++ name := by
  unfold workloadType
  cases hlookup : lookup type with
  | none => exact .inr rfl
  | some wt =>
    have hwt : wt ∈ registeredTypes := List.mem_of_find?_eq_some hlookup
    rcases List.mem_cons.1 hwt with rfl | hwt
    · exact .inr rfl
    rcases List.mem_cons.1 hwt with rfl | hwt
    · exact .inl rfl
    · rw [List.mem_singleton.1 hwt]
      exact .inl rfl

/-- A job with a safe name removes what belongs to a workload. -/
theorem Running.removes_dir {j : Running} (h : j.fn.Named) : ∀ path ∈ j.removes dir, WorkloadDir dir path := by
  intro path hpath
  unfold Running.removes at hpath
  split at hpath
  · rename_i name id type deleteData _ hfn
    rw [hfn] at h
    cases hpath
    exact .inl (segment_joined workloads_isSegment (nameRe_isSegment h).1)
  · rename_i name id type deleteData _ hfn
    rw [hfn] at h
    dsimp only at hpath
    split at hpath
    · rename_i hdata
      cases hpath
      rcases dataDir_eq type name with hnone | hsome
      · rw [hnone, Bool.and_eq_true] at hdata
        exact absurd hdata.2 (by decide)
      · rw [hsome, String.toList_append]
        exact .inr ⟨name.toList, (nameRe_isSegment h).1, rfl⟩
    · cases hpath
  · cases hpath

/-- Whatever requests there are, with whatever names in them, and however their calls overlap each other and the
steps of the jobs: each file that a request created, wrote or removed is one of the state flake, or a temporary one
beside it, and the directories it made are theirs; a job on its way writes no file but its log, and removes no directory
but that of one workload in the state flake, or that of one container's data. -/
theorem files_contained (h : Host) {ms : List Move} {p : Pool} (hrun : Service.run (Service.fresh h) ms = some p)
    (dir logs : String) :
    (∀ e ∈ p.log, (∀ n, ∀ path ∈ e.op.touched dir n, StateFile dir path ∨ TempFile dir path) ∧
      ∀ path ∈ e.op.made dir, FileDir dir path) ∧
    ∀ j, p.state.job = some j → (∀ path ∈ j.writes logs, LogFile logs path) ∧
      ∀ path ∈ j.removes dir, WorkloadDir dir path := by
  have hkept : Effect.Pool.Relying State.Filed Op.Contained p :=
    (Effect.Pool.relying_fresh (filed_fresh h)).run serve_contained (fun hop hs => hop.exec hs) filed_job hrun
  refine ⟨fun e he => ?_, fun j hj => ?_⟩
  · exact ⟨fun n => (hkept.log e he).touched, (hkept.log e he).made⟩
  · exact ⟨Running.writes_log, Running.removes_dir (hkept.state.job j hj)⟩

/-- A container is created, and destroyed with its data. -/
def webDestroyed : List Move :=
  .start (.workloadCreate ⟨"web", "", "nixos-container", "blank", false⟩) :: calls 0 4 ++
    .start (.workloadDestroy "web" "web" "on") :: calls 1 10 ++ List.replicate 7 (.env .ok)

/-- Its job is about to delete the data. -/
def deletingData : Pool := (Service.run (Service.fresh exampleHost) webDestroyed).get (by decide +kernel)

theorem files_contained_destroyed :
    (∀ e ∈ deletingData.log, ∀ n, ∀ path ∈ e.op.touched "/var/lib/nixbox/state" n,
      StateFile "/var/lib/nixbox/state" path ∨ TempFile "/var/lib/nixbox/state" path) ∧
    LogFile "/var/lib/nixbox/logs" "/var/lib/nixbox/logs/job-1.log".toList ∧
      WorkloadDir "/var/lib/nixbox/state" "/var/lib/nixos-containers/web".toList := by
  have hrun : Service.run (Service.fresh exampleHost) webDestroyed = some deletingData := (Option.some_get _).symm
  have hcontained := files_contained exampleHost hrun "/var/lib/nixbox/state" "/var/lib/nixbox/logs"
  have hwrites : deletingData.state.job.bind (·.writes "/var/lib/nixbox/logs") =
      some "/var/lib/nixbox/logs/job-1.log".toList := by decide +kernel
  have hremoves : deletingData.state.job.bind (·.removes "/var/lib/nixbox/state") =
      some "/var/lib/nixos-containers/web".toList := by decide +kernel
  obtain ⟨j, hj, hlog⟩ := Option.bind_eq_some_iff.1 hwrites
  obtain ⟨j', hj', hdir⟩ := Option.bind_eq_some_iff.1 hremoves
  refine ⟨fun e he => (hcontained.1 e he).1, ?_, ?_⟩
  · exact (hcontained.2 j hj).1 _ hlog
  · exact (hcontained.2 j' hj').2 _ hdir

end Runs

end Nixbox
