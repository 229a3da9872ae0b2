/-
The commands a job runs on the host: those of the rebuild pipeline, with what a destroy job runs around them. The
phases of a job's rebuild are the pipeline's program, one command at a time.
-/
import Nixbox.Jobs.Steps

namespace Nixbox

open Effect Nix

/-! ## The pipeline -/

/-- A command with its arguments. -/
abbrev Command := List String

/-- What a rebuild asks of the host: to run a command, and which system generation is current. -/
inductive HostOp : Type → Type
  | stream (command : Command) : HostOp (Except Unit Int)
  | currentGeneration : HostOp (Option Int)

/-- `Pipeline`: where the rebuild finds the host's flake and the state flake, and what they are called. -/
structure Pipeline where
  hostFlake : String
  hostAttr : String
  stateDir : String
  stateInputName : String
  dryRun : Bool
  deriving DecidableEq, Repr

/-- The mode as `nixos-rebuild` takes it. -/
def RebuildMode.text : RebuildMode → String
  | .switch => "switch"
  | .test => "test"
  | .build => "build"

namespace Pipeline

variable (pl : Pipeline)

/-- A dry run builds only. -/
def effective (mode : RebuildMode) : RebuildMode := if pl.dryRun && mode != .build then .build else mode

/-- Step 1: the state flake is locked. -/
def lock : Command := ["nix", "flake", "lock", pl.stateDir]

/-- Step 2: the host's input is refreshed. -/
def refresh : Command := ["nix", "flake", "update", pl.stateInputName, "--flake", pl.hostFlake]

/-- Step 3: `nixos-rebuild`. -/
def switch (mode : RebuildMode) : Command :=
  ["nixos-rebuild", (pl.effective mode).text, "--flake", pl.hostFlake ++ "#" ++ pl.hostAttr]

/-- The commands of a rebuild, in order. -/
def commands (mode : RebuildMode) : List Command := [pl.lock, pl.refresh, pl.switch mode]

/-- A command that ends the rebuild if it cannot be run or exits with another code than 0. -/
def stage (c : Command) (next : Prog HostOp Rebuilt) : Prog HostOp Rebuilt := do
  match ← Prog.perform (.stream c) with
  | .error () => return ⟨-1, none, true⟩
  | .ok code => if code ≠ 0 then return ⟨code, none, false⟩ else next

/-- The system is rebuilt, and its generation is asked for. -/
def activate (mode : RebuildMode) : Prog HostOp Rebuilt :=
  stage (pl.switch mode) do return ⟨0, ← Prog.perform .currentGeneration, false⟩

/-- The rebuild once the state flake is locked. -/
def refreshInput (mode : RebuildMode) : Prog HostOp Rebuilt := stage pl.refresh (pl.activate mode)

/-- `Pipeline.Rebuild`. -/
def Rebuild (mode : RebuildMode) : Prog HostOp Rebuilt := stage pl.lock (pl.refreshInput mode)

end Pipeline

/-! ## The commands of a job -/

/-- What a job rebuilds with. -/
def JobFn.mode : JobFn → RebuildMode
  | .apply mode .. => mode
  | .destroy .. => .switch

/-- What is run before the rebuild: the unit of a workload to be destroyed is stopped. -/
def JobFn.stops : JobFn → List Command
  | .apply .. => []
  | .destroy name _ type _ => [["systemctl", "stop", (workloadType type).unitName name]]

/-- What is run in the end: the data of a workload that has some is deleted if that was asked for. -/
def JobFn.deletes : JobFn → List Command
  | .apply .. => []
  | .destroy name _ type deleteData =>
    let dataDir := (workloadType type).dataDir name
    if deleteData && dataDir != "" then [["rm", "-rf", "--", dataDir]] else []

/-- All that a job runs if all goes well. -/
def JobFn.script (pl : Pipeline) (fn : JobFn) : List Command := fn.stops ++ (pl.commands fn.mode ++ fn.deletes)

/-- The commands a job runs when it goes on: one at most. -/
def Running.command (pl : Pipeline) (j : Running) : List Command :=
  match j.phase with
  | .stop => j.fn.stops
  | .lock => [pl.lock]
  | .refresh => [pl.refresh]
  | .switch => [pl.switch j.fn.mode]
  | .removeData => j.fn.deletes
  | _ => []

/-- A phase in which nothing is run. -/
@[simp] def Phase.silent : Phase → Bool
  | .stop | .lock | .refresh | .switch | .removeData => false
  | _ => true

/-- A phase in which the rebuild has succeeded and the job goes on. -/
@[simp] def Phase.past : Phase → Bool
  | .mark .. | .deleteRow | .removeDir | .removeData => true
  | _ => false

section Phases

variable {pl : Pipeline} {j : Running}

@[simp] theorem Running.command_stop (h : j.phase = .stop) : j.command pl = j.fn.stops := by
  simp only [Running.command, h]

@[simp] theorem Running.command_lock (h : j.phase = .lock) : j.command pl = [pl.lock] := by
  simp only [Running.command, h]

@[simp] theorem Running.command_refresh (h : j.phase = .refresh) : j.command pl = [pl.refresh] := by
  simp only [Running.command, h]

@[simp] theorem Running.command_switch (h : j.phase = .switch) : j.command pl = [pl.switch j.fn.mode] := by
  simp only [Running.command, h]

@[simp] theorem Running.command_removeData (h : j.phase = .removeData) : j.command pl = j.fn.deletes := by
  simp only [Running.command, h]

@[simp] theorem Running.command_silent (h : j.phase.silent = true) : j.command pl = [] := by
  unfold Running.command
  cases hphase : j.phase with
  | stop | lock | refresh | switch | removeData =>
    rw [hphase] at h
    cases h
  | _ => rfl

end Phases

namespace Jobs

/-! ## The phases are the pipeline's program -/

/-- What is left of the rebuild at a phase of it. -/
def rest (pl : Pipeline) (j : Running) : Option (Prog HostOp Rebuilt) :=
  match j.phase with
  | .lock => some (pl.Rebuild j.fn.mode)
  | .refresh => some (pl.refreshInput j.fn.mode)
  | .switch => some (pl.activate j.fn.mode)
  | _ => none

@[simp] theorem rest_lock {pl : Pipeline} {j : Running} (h : j.phase = .lock) :
    rest pl j = some (pl.Rebuild j.fn.mode) := by
  simp only [rest, h]

/-- The program goes on with a command, and what its answer leads to: the rest, or the result, which may ask for
the generation. -/
inductive Goes (i : Input) : Prog HostOp Rebuilt → Command → Prog HostOp Rebuilt ⊕ Rebuilt → Prop
  | on {c : Command} {k : Except Unit Int → Prog HostOp Rebuilt} : Goes i (.call (.stream c) k) c (.inl (k i.cmd))
  | returned {c : Command} {k : Except Unit Int → Prog HostOp Rebuilt} {r : Rebuilt} (h : k i.cmd = .ret r) :
    Goes i (.call (.stream c) k) c (.inr r)
  | asked {c : Command} {k : Except Unit Int → Prog HostOp Rebuilt} {k' : Option Int → Prog HostOp Rebuilt}
    {r : Rebuilt} (h : k i.cmd = .call .currentGeneration k') (hr : k' i.gen = .ret r) :
    Goes i (.call (.stream c) k) c (.inr r)

/-- A command of the rebuild that succeeds leads to the next phase and the next stage; after any other the program
returns what the job goes on with. -/
theorem command_stage {i : Input} {j next : Running} {c : Command} {q : Prog HostOp Rebuilt} :
    (i.cmd = .ok 0 ∧ command j i.cmd next = next ∧ Goes i (Pipeline.stage c q) c (.inl q)) ∨
      ∃ r, Goes i (Pipeline.stage c q) c (.inr r) ∧ command j i.cmd next = rebuildReturned j r := by
  obtain ⟨cmd, gen, pick, fault⟩ := i
  match cmd with
  | .error () => exact .inr ⟨_, .returned rfl, rfl⟩
  | .ok code =>
    by_cases hzero : code = 0
    · subst hzero
      exact .inl ⟨rfl, rfl, .on⟩
    · exact .inr ⟨_, .returned (if_pos hzero), if_neg hzero⟩

/-- A step of a job at its rebuild is a step of the pipeline's program: the command is the same, and afterwards either
what is left is the same, or the program has returned what the job function goes on with. -/
theorem rebuild_simulated {pl : Pipeline} {i : Input} {s s' : State} {j j' : Running} {p : Prog HostOp Rebuilt}
    (hp : rest pl j = some p) (h : run i j s = some (s', j')) :
    ∃ c, j.command pl = [c] ∧
      ((∃ q, Goes i p c (.inl q) ∧ rest pl j' = some q) ∨
        ∃ r picked, Goes i p c (.inr r) ∧ j' = rebuildReturned { j with picked := picked } r) := by
  unfold rest at hp
  split at hp
  · rename_i hphase
    simp only [run, hphase] at h
    cases hp
    cases h
    refine ⟨pl.lock, Running.command_lock hphase, ?_⟩
    rcases command_stage (i := i) with ⟨-, hnext, hgoes⟩ | ⟨r, hgoes, hreturned⟩
    · exact .inl ⟨_, hgoes, by rw [hnext]; rfl⟩
    · exact .inr ⟨r, j.picked, hgoes, hreturned⟩
  · rename_i hphase
    simp only [run, hphase] at h
    cases hp
    cases h
    refine ⟨pl.refresh, Running.command_refresh hphase, ?_⟩
    rcases command_stage (i := i) with ⟨-, hnext, hgoes⟩ | ⟨r, hgoes, hreturned⟩
    · exact .inl ⟨_, hgoes, by rw [hnext]; rfl⟩
    · exact .inr ⟨r, some s.disk, hgoes, hreturned⟩
  · rename_i hphase
    simp only [run, hphase] at h
    cases hp
    cases h
    refine ⟨pl.switch j.fn.mode, Running.command_switch hphase, .inr ?_⟩
    rcases command_stage (i := i) with ⟨hcmd, hnext, -⟩ | ⟨r, hgoes, hreturned⟩
    · refine ⟨⟨0, i.gen, false⟩, j.picked, @Goes.asked i _ _ (fun gen => .ret ⟨0, gen, false⟩) _ ?_ rfl,
        hnext⟩
      rw [hcmd]
      rfl
    · exact ⟨r, j.picked, hgoes, hreturned⟩
  · cases hp

/-! ## What a job has run -/

/-- A command that was run, and what it answered: its exit code, or that it could not be run. -/
structure Issued where
  command : Command
  answer : Except Unit Int
  deriving DecidableEq

/-- What has been run by a job that gets to the phase; nothing is said of one that ends. -/
def soFar (pl : Pipeline) (j : Running) : Option (List Command) :=
  match j.phase with
  | .logFile | .stop => some []
  | .lock => some j.fn.stops
  | .refresh => some (j.fn.stops ++ [pl.lock])
  | .switch => some (j.fn.stops ++ [pl.lock, pl.refresh])
  | .mark .. | .deleteRow | .removeDir | .removeData => some (j.fn.stops ++ pl.commands j.fn.mode)
  | .finish | .release | .exited => none

section Far

variable {pl : Pipeline} {j : Running}

@[simp] theorem soFar_logFile (h : j.phase = .logFile) : soFar pl j = some [] := by simp only [soFar, h]

@[simp] theorem soFar_stop (h : j.phase = .stop) : soFar pl j = some [] := by simp only [soFar, h]

@[simp] theorem soFar_lock (h : j.phase = .lock) : soFar pl j = some j.fn.stops := by simp only [soFar, h]

@[simp] theorem soFar_refresh (h : j.phase = .refresh) : soFar pl j = some (j.fn.stops ++ [pl.lock]) := by
  simp only [soFar, h]

@[simp] theorem soFar_switch (h : j.phase = .switch) : soFar pl j = some (j.fn.stops ++ [pl.lock, pl.refresh]) := by
  simp only [soFar, h]

@[simp] theorem soFar_past (h : j.phase.past = true) :
    soFar pl j = some (j.fn.stops ++ pl.commands j.fn.mode) := by
  unfold soFar
  cases hphase : j.phase with
  | mark | deleteRow | removeDir | removeData => rfl
  | _ =>
    rw [hphase] at h
    cases h

@[simp] theorem soFar_finish (h : j.phase = .finish) : soFar pl j = none := by simp only [soFar, h]

/-- The rebuild has returned: the job ends, or it goes on after the last command of the rebuild. -/
theorem soFar_returned {r : Rebuilt} :
    soFar pl (rebuildReturned j r) = none ∨
      soFar pl (rebuildReturned j r) = some (j.fn.stops ++ pl.commands j.fn.mode) := by
  unfold rebuildReturned
  dsimp only
  cases hfn : j.fn with
  | apply mode applied inputs secrets =>
    dsimp only
    split
    · exact .inr (soFar_past rfl)
    · exact .inl (soFar_finish rfl)
  | destroy name id type deleteData =>
    dsimp only
    split
    · exact .inl (soFar_finish rfl)
    · exact .inr (soFar_past rfl)

end Far

/-- After this command the job goes on: it exited with 0, or it was the stopping of a unit. -/
def Going (fn : JobFn) (e : Issued) : Prop := e.answer = .ok 0 ∨ e.command ∈ fn.stops

/-- A first part of the job's script, in which it goes on after each command but the last. -/
structure Part (pl : Pipeline) (fn : JobFn) (part : List Issued) : Prop where
  order : part.map (·.command) <+: fn.script pl
  going : ∀ e ∈ part.dropLast, Going fn e

/-- What the job has run so far. -/
structure At (pl : Pipeline) (j : Running) (part : List Issued) : Prop extends Part pl j.fn part where
  reached : ∀ l, soFar pl j = some l → part.map (·.command) = l ∧ ∀ e ∈ part, Going j.fn e

section Parts

variable {pl : Pipeline} {i : Input} {s s' : State} {j j' : Running} {part : List Issued} {c : Command}
  {a : Except Unit Int}

theorem at_spawned (h : j.phase = .logFile) : At pl j [] := by
  refine ⟨⟨List.nil_prefix, nofun⟩, fun l hl => ⟨?_, nofun⟩⟩
  rw [soFar_logFile h] at hl
  exact Option.some.inj hl

/-- A step without a command. -/
theorem At.quiet (h : At pl j part) (hfn : j'.fn = j.fn) (hfar : soFar pl j' = none ∨ soFar pl j' = soFar pl j) :
    At pl j' part := by
  refine ⟨⟨hfn ▸ h.order, hfn ▸ h.going⟩, fun l hl => ?_⟩
  rcases hfar with hnone | hsame
  · rw [hnone] at hl
    cases hl
  · rw [hfn]
    exact h.reached l (hsame ▸ hl)

/-- The next command of the script. -/
theorem At.issue (h : At pl j part) {l : List Command} (hl : soFar pl j = some l) (hc : l ++ [c] <+: j.fn.script pl)
    (hfn : j'.fn = j.fn)
    (hfar : soFar pl j' = none ∨ soFar pl j' = some (l ++ [c]) ∧ (a = .ok 0 ∨ c ∈ j.fn.stops)) :
    At pl j' (part ++ [(⟨c, a⟩ : Issued)]) := by
  obtain ⟨hpart, hgoing⟩ := h.reached l hl
  have hmap : (part ++ [(⟨c, a⟩ : Issued)]).map (·.command) = l ++ [c] := by rw [List.map_append, hpart]; rfl
  refine ⟨⟨hfn ▸ hmap ▸ hc, fun e he => ?_⟩, fun l' hl' => ?_⟩
  · rw [List.dropLast_concat] at he
    rw [hfn]
    exact hgoing e he
  · rcases hfar with hnone | ⟨hsome, hgo⟩
    · rw [hnone] at hl'
      cases hl'
    · rw [hsome] at hl'
      cases hl'
      refine ⟨hmap, fun e he => ?_⟩
      rw [hfn]
      rcases List.mem_append.1 he with he | he
      · exact hgoing e he
      · rw [List.mem_singleton.1 he]
        exact hgo

theorem stops_cases (fn : JobFn) : fn.stops = [] ∨ ∃ c, fn.stops = [c] := by
  cases fn with
  | apply => exact .inl rfl
  | destroy => exact .inr ⟨_, rfl⟩

theorem deletes_cases (fn : JobFn) : fn.deletes = [] ∨ ∃ dataDir, fn.deletes = [["rm", "-rf", "--", dataDir]] := by
  cases fn with
  | apply => exact .inl rfl
  | destroy =>
    unfold JobFn.deletes
    dsimp only
    split
    · exact .inr ⟨_, rfl⟩
    · exact .inl rfl

/-- A command of the rebuild succeeds and the next phase comes, or the job ends. -/
theorem command_next {next : Running} (hfn : next.fn = j.fn) :
    (command j i.cmd next).fn = j.fn ∧
      (i.cmd = .ok 0 ∧ command j i.cmd next = next ∨ (command j i.cmd next).phase = .finish) := by
  have hbad : ∀ r, Rebuilt.bad r → (rebuildReturned j r).fn = j.fn ∧ (rebuildReturned j r).phase = .finish :=
    fun r hr => ⟨rebuildReturned_frame.1, (rebuildReturned_bad hr).1⟩
  unfold command
  split
  · have h := hbad ⟨-1, none, true⟩ (.inl rfl)
    exact ⟨h.1, .inr h.2⟩
  · rename_i code hcmd
    split
    · rename_i hzero
      exact ⟨hfn, .inl ⟨by rw [hcmd, hzero], rfl⟩⟩
    · rename_i hcode
      have h := hbad ⟨code, none, false⟩ (.inr hcode)
      exact ⟨h.1, .inr h.2⟩

/-- A command of the rebuild, which leads on if it succeeds. -/
theorem at_command {next : Running} {l : List Command} (h : At pl j part) (hl : soFar pl j = some l)
    (hc : l ++ [c] <+: j.fn.script pl) (hcommand : j.command pl = [c]) (hfn : next.fn = j.fn)
    (hnext : soFar pl next = none ∨ soFar pl next = some (l ++ [c])) :
    At pl (command j i.cmd next) (part ++ (j.command pl).map (⟨·, i.cmd⟩)) := by
  obtain ⟨hfn', hcases⟩ := command_next (i := i) hfn
  rw [hcommand]
  refine h.issue hl hc hfn' ?_
  rcases hcases with ⟨hok, heq⟩ | hfinish
  · rw [heq]
    exact hnext.imp_right fun hsome => ⟨hsome, .inl hok⟩
  · exact .inl (soFar_finish hfinish)

/-- A step at which nothing is run. -/
theorem at_silent (h : At pl j part) (hnone : j.command pl = []) (hfn : j'.fn = j.fn)
    (hfar : soFar pl j' = none ∨ soFar pl j' = soFar pl j) :
    At pl j' (part ++ (j.command pl).map (⟨·, i.cmd⟩)) := by
  rw [hnone, List.map_nil, List.append_nil]
  exact h.quiet hfn hfar

/-- The unit is stopped, if there is one; the rebuild comes next, whatever that answers. -/
theorem at_stop (h : At pl j part) (hphase : j.phase = .stop) :
    At pl { j with phase := .lock } (part ++ (j.command pl).map (⟨·, i.cmd⟩)) := by
  have hnext : soFar pl { j with phase := .lock } = some j.fn.stops := soFar_lock rfl
  rcases stops_cases j.fn with hnone | ⟨c, hc⟩
  · refine at_silent h (by rw [Running.command_stop hphase, hnone]) rfl (.inr ?_)
    rw [hnext, hnone, soFar_stop hphase]
  · rw [Running.command_stop hphase, hc]
    refine h.issue (l := []) (soFar_stop hphase) ?_ rfl (.inr ⟨by rw [hnext, hc, List.nil_append], .inr ?_⟩)
    · rw [JobFn.script, hc]
      exact ⟨_, rfl⟩
    · rw [hc]
      exact List.mem_singleton_self _

/-- The commands of the rebuild follow the stop, as far as they get. -/
theorem script_commands {l : List Command} (hl : l <+: pl.commands j.fn.mode ++ j.fn.deletes) :
    j.fn.stops ++ l <+: j.fn.script pl :=
  (List.prefix_append_right_inj _).2 hl

/-- At its rebuild a job runs the next command of that, and goes on if it succeeds. -/
theorem at_rebuild (h : At pl j part) (hphase : j.phase = .lock ∨ j.phase = .refresh ∨ j.phase = .switch)
    (hrun : run i j s = some (s', j')) : At pl j' (part ++ (j.command pl).map (⟨·, i.cmd⟩)) := by
  rcases hphase with hphase | hphase | hphase <;> simp only [run, hphase] at hrun <;> cases hrun
  · exact at_command h (soFar_lock hphase) (script_commands ⟨_, rfl⟩) (Running.command_lock hphase) rfl
      (.inr (soFar_refresh rfl))
  · -- what the rebuild picks up is none of its commands
    have hpicked : At pl { j with picked := some s.disk } part := h.quiet rfl (.inr rfl)
    refine at_command hpicked (soFar_refresh hphase) ?_ (Running.command_refresh hphase) rfl (.inr ?_)
    · rw [List.append_assoc]
      exact script_commands ⟨_, rfl⟩
    · rw [List.append_assoc]
      exact soFar_switch rfl
  · refine at_command h (soFar_switch hphase) ?_ (Running.command_switch hphase) rebuildReturned_frame.1 ?_
    · rw [List.append_assoc]
      exact script_commands ⟨_, rfl⟩
    · rw [List.append_assoc]
      exact soFar_returned

/-- The data is deleted, if that was asked for, and the job ends. -/
theorem at_delete (h : At pl j part) (hphase : j.phase = .removeData) (hfn : j'.fn = j.fn)
    (hfinish : j'.phase = .finish) : At pl j' (part ++ (j.command pl).map (⟨·, i.cmd⟩)) := by
  have hfar : soFar pl j = some (j.fn.stops ++ pl.commands j.fn.mode) := soFar_past (by rw [hphase]; rfl)
  rcases deletes_cases j.fn with hnone | ⟨dataDir, hc⟩
  · exact at_silent h (by rw [Running.command_removeData hphase, hnone]) hfn (.inl (soFar_finish hfinish))
  · have hall : j.fn.stops ++ pl.commands j.fn.mode ++ [["rm", "-rf", "--", dataDir]] = j.fn.script pl := by
      rw [JobFn.script, hc, List.append_assoc]
    rw [Running.command_removeData hphase, hc]
    exact h.issue hfar ⟨[], (List.append_nil _).trans hall⟩ hfn (.inl (soFar_finish hfinish))

/-- A job at work keeps to its script. -/
theorem at_step (hrun : run i j s = some (s', j')) (h : At pl j part) :
    At pl j' (part ++ (j.command pl).map (⟨·, i.cmd⟩)) := by
  have hst := run_stepped hrun
  have hfn := hst.frame.1
  cases hst with
  -- the stop, the three commands of the rebuild and the deletion of the data: a command is run
  | stopped hp => exact at_stop h hp
  | locked hp | lockFailed hp => exact at_rebuild h (.inl hp) hrun
  | refreshed hp | refreshFailed hp => exact at_rebuild h (.inr (.inl hp)) hrun
  | switched hp | switchFailed hp => exact at_rebuild h (.inr (.inr hp)) hrun
  | removedData hp => exact at_delete h hp hfn rfl
  -- the steps of the service itself: nothing is run, and the job is as far as before or ends
  | opened hp =>
    refine at_silent h (by simp [hp]) hfn (.inr ?_)
    rw [soFar_logFile hp]
    cases hjob : j.fn with
    | apply => exact soFar_lock rfl
    | destroy => exact soFar_stop rfl
  | markedWorkload hp | markedInput hp | markedSecret hp | deletedRow hp | removedDir hp =>
    exact at_silent h (by simp [hp]) hfn (.inr ((soFar_past rfl).trans (by simp [hp])))
  | markedAll hp | markFailed hp | notFinished hp | finished hp | released hp =>
    exact at_silent h (by simp [hp]) hfn (.inl rfl)
  | gaveUp hp => exact at_silent h (by rcases hp with hp | hp | hp <;> simp [hp]) hfn (.inl rfl)

/-! ## The rebuild among what a job has run -/

/-- The program has come to `r` by these commands. -/
inductive Comes (q : Prog HostOp Rebuilt) : List Issued → Prog HostOp Rebuilt ⊕ Rebuilt → Prop
  | start : Comes q [] (.inl q)
  | step {l : List Issued} {q' : Prog HostOp Rebuilt} {c : Command} {r : Prog HostOp Rebuilt ⊕ Rebuilt} {i : Input}
    (h : Comes q l (.inl q')) (hgoes : Goes i q' c r) : Comes q (l ++ [⟨c, i.cmd⟩]) r

/-- Its rebuild has not returned. -/
def early (j : Running) : Bool :=
  match j.phase with
  | .logFile | .stop | .lock | .refresh | .switch => true
  | _ => false

/-- After the stop, what the job runs is a run of the pipeline's program; what that returned is what the job goes by. -/
structure Rebuilds (pl : Pipeline) (j : Running) (part : List Issued) : Prop where
  unreturned : early j = true → j.rebuilt = none
  going : ∀ q, rest pl j = some q → ∃ before l, part = before ++ l ∧ before.map (·.command) = j.fn.stops ∧
    Comes (pl.Rebuild j.fn.mode) l (.inl q)
  returned : ∀ r, j.rebuilt = some r → ∃ before l after, part = before ++ l ++ after ∧
    before.map (·.command) = j.fn.stops ∧ Comes (pl.Rebuild j.fn.mode) l (.inr r) ∧
      after.map (·.command) <+: j.fn.deletes ∧ (soFar pl j ≠ none → after = [])

theorem rebuilds_spawned (h : j.phase = .logFile) (hrebuilt : j.rebuilt = none) : Rebuilds pl j [] := by
  refine ⟨fun _ => hrebuilt, fun q hq => ?_, fun r hr => ?_⟩
  · simp only [rest, h] at hq
    cases hq
  · rw [hrebuilt] at hr
    cases hr

theorem early_of_rest {q : Prog HostOp Rebuilt} (h : rest pl j = some q) : early j = true := by
  unfold rest at h
  split at h
  · rename_i hphase
    simp only [early, hphase]
  · rename_i hphase
    simp only [early, hphase]
  · rename_i hphase
    simp only [early, hphase]
  · cases h

/-- A job whose rebuild has returned is past it. -/
theorem rest_returned {r : Rebuilt} : rest pl (rebuildReturned j r) = none := by
  unfold rebuildReturned
  dsimp only
  split <;> split <;> rfl

theorem early_returned {r : Rebuilt} : early (rebuildReturned j r) = false := by
  unfold rebuildReturned
  dsimp only
  split <;> split <;> rfl

/-- A job whose rebuild has not returned is where it was before. -/
theorem Stepped.early_back (h : Stepped i s j s' j') (he : early j' = true) :
    early j = true ∧ j'.rebuilt = j.rebuilt := by
  cases h with
  | opened hp | stopped hp | locked hp | refreshed hp => exact ⟨by simp only [early, hp], rfl⟩
  | lockFailed | refreshFailed | switched | switchFailed =>
    rw [early_returned] at he
    cases he
  | notFinished | deletedRow | removedDir | markedWorkload | markedInput | markedSecret | markedAll | markFailed
  | removedData | gaveUp | released | finished => cases he

/-- A job that is not at its rebuild does not change what that returned, and comes to it at its first command. -/
theorem Stepped.entering (h : Stepped i s j s' j') (hrest : rest pl j = none) :
    j'.rebuilt = j.rebuilt ∧ ∀ q, rest pl j' = some q → j'.phase = .lock := by
  cases h with
  | locked hp | lockFailed hp | refreshed hp | refreshFailed hp | switched hp | switchFailed hp =>
    simp only [rest, hp] at hrest
    cases hrest
  | opened =>
    refine ⟨rfl, fun q hq => ?_⟩
    cases hfn : j.fn with
    | apply => rfl
    | destroy =>
      simp only [rest, hfn, begin] at hq
      cases hq
  | stopped => exact ⟨rfl, fun _ _ => rfl⟩
  | notFinished | deletedRow | removedDir | markedWorkload | markedInput | markedSecret | markedAll | markFailed
  | removedData | gaveUp | released | finished => exact ⟨rfl, fun q hq => nomatch hq⟩

/-- After the rebuild a job runs nothing, but for the deleting of the data, which is the last it does. -/
theorem Stepped.late (pl : Pipeline) (h : Stepped i s j s' j') (he : early j = false) :
    (j.command pl = [] ∧ (soFar pl j' ≠ none → soFar pl j ≠ none)) ∨
      (j.command pl = j.fn.deletes ∧ soFar pl j ≠ none ∧ soFar pl j' = none) := by
  cases h with
  | opened hp | stopped hp | locked hp | lockFailed hp | refreshed hp | refreshFailed hp | switched hp
  | switchFailed hp =>
    simp only [early, hp] at he
    cases he
  | removedData hp => exact .inr ⟨Running.command_removeData hp, by simp [hp], rfl⟩
  | deletedRow hp | removedDir hp | markedWorkload hp | markedInput hp | markedSecret hp | markedAll hp
  | markFailed hp => exact .inl ⟨by simp [hp], fun _ => by simp [hp]⟩
  | notFinished hp | released hp | finished hp => exact .inl ⟨by simp [hp], fun hsome => absurd rfl hsome⟩
  | gaveUp hp =>
    refine .inl ⟨?_, fun hsome => absurd rfl hsome⟩
    rcases hp with hp | hp | hp <;> simp [hp]

theorem rebuilds_step (hrun : run i j s = some (s', j')) (hat : At pl j part) (h : Rebuilds pl j part) :
    Rebuilds pl j' (part ++ (j.command pl).map (⟨·, i.cmd⟩)) := by
  have hst := run_stepped hrun
  have hfn := hst.frame.1
  have hunreturned : early j' = true → j'.rebuilt = none := by
    intro he
    obtain ⟨hbefore, hsame⟩ := hst.early_back he
    rw [hsame]
    exact h.unreturned hbefore
  cases hrest : rest pl j with
  | none =>
    obtain ⟨hsame, hlock⟩ := hst.entering hrest
    refine ⟨hunreturned, fun q hq => ?_, fun r hr => ?_⟩
    · -- what has been run up to here is the stop
      have hphase := hlock q hq
      have hstops := ((at_step hrun hat).reached j'.fn.stops (soFar_lock hphase)).1
      rw [rest_lock hphase] at hq
      cases hq
      exact ⟨_, [], (List.append_nil _).symm, hstops, .start⟩
    · obtain ⟨before, l, after, hpart, hbefore, hcomes, hdeletes, hnone⟩ := h.returned r (hsame ▸ hr)
      have hlate : early j = false := by
        refine Bool.eq_false_iff.2 fun he => ?_
        rw [hsame, h.unreturned he] at hr
        cases hr
      rw [hfn]
      rcases hst.late pl hlate with ⟨hcommand, hfar⟩ | ⟨hcommand, hfar, hfar'⟩
      · rw [hcommand, List.map_nil, List.append_nil]
        exact ⟨before, l, after, hpart, hbefore, hcomes, hdeletes, fun hsome => hnone (hfar hsome)⟩
      · refine ⟨before, l, (j.command pl).map (⟨·, i.cmd⟩), ?_, hbefore, hcomes, ?_,
          fun hsome => absurd hfar' hsome⟩
        · rw [hpart, hnone hfar, List.append_nil]
        · rw [hcommand, List.map_map]
          exact ⟨[], (List.append_nil _).trans (List.map_id _)⟩
  | some q =>
    obtain ⟨before, l, hpart, hbefore, hcomes⟩ := h.going q hrest
    obtain ⟨c, hc, hcases⟩ := rebuild_simulated hrest hrun
    have hpart' : part ++ (j.command pl).map (⟨·, i.cmd⟩) = before ++ (l ++ [(⟨c, i.cmd⟩ : Issued)]) := by
      rw [hc, hpart, List.append_assoc]
      rfl
    rcases hcases with ⟨q', hgoes, hrest'⟩ | ⟨r, picked, hgoes, rfl⟩
    · refine ⟨hunreturned, fun q'' hq'' => ?_, fun r hr => ?_⟩
      · rw [hrest'] at hq''
        cases hq''
        rw [hfn]
        exact ⟨before, _, hpart', hbefore, hcomes.step hgoes⟩
      · rw [hunreturned (early_of_rest hrest')] at hr
        cases hr
    · refine ⟨hunreturned, fun q'' hq'' => ?_, fun r' hr' => ?_⟩
      · rw [rest_returned] at hq''
        cases hq''
      · rw [rebuildReturned_frame.2.2.2] at hr'
        cases hr'
        rw [hfn]
        exact ⟨before, _, [], by rw [hpart', List.append_nil], hbefore, hcomes.step hgoes,
          List.nil_prefix, fun _ => rfl⟩

end Parts

end Jobs

end Nixbox
