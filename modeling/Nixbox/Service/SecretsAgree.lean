/-
index.nix and flake.nix at the moment a job rebuilds: the one declares secrets exactly when the
other imports agenix. An apply regenerates both from the same rows; a destroy regenerates
index.nix alone, so it depends on the flake.nix it finds.
-/
import Nixbox.Service.Frames

namespace Nixbox

open Effect Store Server

/-! ## Definitions -/

namespace Disk

variable (d : Disk)

/-- index.nix is there and declares a secret. -/
def declaresSecrets : Bool := d.indexNix.any (·.declaresSecrets)

/-- flake.nix is there and imports inputs.agenix.nixosModules.default. -/
def importsAgenix : Bool := d.flakeNix.any (·.importsAgenix)

end Disk

/-- There is a secret row. -/
def Store.Db.hasSecrets (db : Db) : Bool := !db.secretList.isEmpty

/-- The condition on a destroy request that names a workload and confirms it: flake.nix imports
agenix exactly when a secret exists. -/
def destroyMeetsFlake (s : State) : Event → Bool
  | .request (.workloadDestroy name confirm _) _ =>
    !(s.db.workloads.rows.any fun w => w.name == name && w.name == confirm) ||
      s.disk.importsAgenix == s.db.hasSecrets
  | _ => true

/-! ## The two ways to start a job -/

theorem Launched.disk_agrees_apply {s s' : State} {fn : JobFn} {row : ID} (h : Launched fn row s.prepared s') :
    s'.disk.declaresSecrets = s'.disk.importsAgenix := by
  rw [h.disk]
  show s.db.index.declaresSecrets = s.db.flake.importsAgenix
  rw [Db.index_declaresSecrets, Db.flake_importsAgenix]

/-- A destroy leaves the files in agreement exactly when flake.nix already was. -/
theorem Launched.disk_agrees_destroy {s s' : State} {fn : JobFn} {row id : ID}
    (h : Launched fn row (s.disabled id).reindexed s') :
    s'.disk.declaresSecrets = s'.disk.importsAgenix ↔ s.disk.importsAgenix = s.db.hasSecrets := by
  rw [h.disk]
  show (s.disabled id).db.index.declaresSecrets = s.disk.importsAgenix ↔ _
  rw [Db.index_declaresSecrets]
  show s.db.hasSecrets = _ ↔ _
  exact eq_comm

/-! ## Every step -/

/-- While a job is in flight the two files agree. -/
def SecretsAgree (s : State) : Prop := s.inFlight = true → s.disk.declaresSecrets = s.disk.importsAgenix

theorem secretsAgree_request {s : State} {r : Request} {faults : List Bool}
    (hseq : s.inFlight = false) (hflake : destroyMeetsFlake s (.request r faults) = true) :
    SecretsAgree (s.handle r faults) := by
  -- a request that starts no job finds none in flight and leaves none
  have hidle : ∀ s' : State, s'.job = s.job → SecretsAgree s' := by
    intro s' hjob hfl
    rw [inFlight_of_job hjob, hseq] at hfl
    cases hfl
  rcases r.plain_or with hplain | ⟨mode, hmode⟩ | ⟨name, confirm, deleteData, rfl⟩
  · have hk : Kind.slot ∉ r.kinds := by simpa [Request.plain] using hplain
    exact hidle _ ((s.handle_frame r faults).slot hk).2
  · have hend := State.handle_ends (apply_ends hmode s) faults
    generalize s.answer r faults = a at hend
    generalize s.handle r faults = s' at hend ⊢
    cases hend with
    | rejected => exact hidle _ rfl
    | launched hl => exact fun _ => hl.disk_agrees_apply
    | refused => exact hidle _ rfl
    | failed ht hs' =>
      rcases hs' with rfl | hn
      · exact hidle _ ht.job
      · exact hidle _ (hn.job.trans ht.job)
  · have hend := State.handle_ends (destroy_ends name confirm deleteData s) faults
    generalize s.answer _ faults = a at hend
    generalize s.handle _ faults = s' at hend ⊢
    cases hend with
    | rejected => exact hidle _ rfl
    | disabled => exact hidle _ rfl
    | refused => exact hidle _ rfl
    | failed _ _ hn => exact hidle _ hn.job
    | launched hw hname hconfirm hl =>
      refine fun _ => hl.disk_agrees_destroy.2 ?_
      have hany : s.db.workloads.rows.any (fun w => w.name == name && w.name == confirm) = true :=
        List.any_eq_true.2 ⟨_, hw, by rw [hname, hconfirm]; simp⟩
      simpa only [destroyMeetsFlake, hany, Bool.not_true, Bool.false_or, beq_iff_eq] using hflake

theorem secretsAgree_step {s s' : State} {e : Event} (hseq : s.sequential e = true)
    (hflake : destroyMeetsFlake s e = true) (h : SecretsAgree s) (hs : s.step e = some s') : SecretsAgree s' := by
  cases e with
  | request r faults =>
    cases hs
    exact secretsAgree_request (by simpa [State.sequential] using hseq) hflake
  | restart =>
    cases hs
    intro hfl
    rw [State.inFlight, s.restart_frame.2.1] at hfl
    cases hfl
  | job i =>
    obtain ⟨j, t, j', hj, hst, rfl⟩ := Jobs.step_some hs
    obtain ⟨-, -, -, hi, hf, -⟩ := hst.frame
    intro _
    show t.disk.declaresSecrets = t.disk.importsAgenix
    unfold Disk.declaresSecrets Disk.importsAgenix
    rw [hi, hf]
    exact h (hst.inFlight hj)

/-! ## Every run -/

/-- Whenever a job is about to rebuild, index.nix declares a secret if and only if flake.nix imports
agenix, in every run whose destroys find a flake.nix that fits the secrets. -/
theorem secrets_agree_at_rebuild {h : Host} {es : List Event} {s : State}
    (hseq : Runs.Along State.step (fun s e => s.sequential e = true) (State.fresh h) es)
    (hflake : Runs.Along State.step (fun s e => destroyMeetsFlake s e = true) (State.fresh h) es)
    (hs : (State.fresh h).run es = some s) (hlock : s.phase = some .lock) :
    s.disk.declaresSecrets = s.disk.importsAgenix := by
  have hinv : SecretsAgree s := Runs.exec_inv (fun s e s' hp hI hstep => secretsAgree_step hp.1 hp.2 hI hstep)
    (hseq.and hflake) (fun hfl => by cases hfl) hs
  apply hinv
  obtain ⟨j, hj, hp⟩ := Option.map_eq_some_iff.1 hlock
  unfold State.inFlight
  rw [hj, Option.any_some, hp]
  rfl

/-- A secret created, then a workload destroyed before any apply. -/
def destroyBeforeApply : List Event :=
  [createToken, createWeb, req (.workloadDestroy "web" "web" "")] ++ jobSteps 2

/-- Not in every run: after that one the destroy job rebuilds with an index that declares a secret
and a flake without agenix. -/
theorem secrets_disagree_at_rebuild : ¬ ∀ (h : Host) (es : List Event) (s : State),
    Runs.Along State.step (fun s e => s.sequential e = true) (State.fresh h) es →
    es.all Event.faultless = true → (State.fresh h).run es = some s → s.phase = some .lock →
    s.disk.declaresSecrets = s.disk.importsAgenix := by
  intro hall
  have hdiff := hall exampleHost destroyBeforeApply
    (((State.fresh exampleHost).run destroyBeforeApply).get (by decide +kernel)) (by decide +kernel)
    (by decide +kernel) (Option.some_get _).symm (by decide +kernel)
  exact absurd hdiff (by decide +kernel)

/-- An apply after the secret, then the destroy. -/
def destroyAfterApply : List Event :=
  [createToken, createWeb, req .rebuild] ++ jobSteps 8 ++ [req (.workloadDestroy "web" "web" "")] ++ jobSteps 2

theorem secrets_agree_destroyAfterApply :
    (((State.fresh exampleHost).run destroyAfterApply).get (by decide +kernel)).disk.declaresSecrets =
      (((State.fresh exampleHost).run destroyAfterApply).get (by decide +kernel)).disk.importsAgenix :=
  secrets_agree_at_rebuild (by decide +kernel) (by decide +kernel) (Option.some_get _).symm (by decide +kernel)

end Nixbox
