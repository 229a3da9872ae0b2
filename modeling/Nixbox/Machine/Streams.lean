/-
The containers' figures of the metrics streams: what each tick reads of the units of the workloads enabled then, and
the CPU percentages made of two ticks in a row. A percentage never reaches further back than the tick before. The loops
look at the clock before they ask for the counters, so the time of a tick is not that of its counters.
-/
import Mathlib.Algebra.Order.Field.Rat
import Mathlib.Tactic.FieldSimp
import Mathlib.Tactic.Linarith
import Mathlib.Tactic.Positivity
import Nixbox.Machine.Usages

namespace Nixbox.Machine

open Directory

/-! ## The loops -/

/-- One turn of a loop: what the clock says at its start, the instant of which its command is answered, the enabled
workloads, and what answers. -/
structure Tick where
  now : Int
  read : Int
  refs : List Ref
  run : List String → Except String String

/-- `containerMetrics`, with the exact percentage. -/
structure ContainerMetrics where
  name : String
  running : Bool
  cpuPct : Option ℚ
  memBytes : Nat
  tasks : Nat
  deriving DecidableEq

/-- `prevTime`, `prevCPU` and `havePrev` of `handleMetrics`. -/
structure PrevCPU where
  time : Int
  cpu : Dir Nat
  havePrev : Bool

/-- The map of a tick; it is nil if the command fails. -/
def Tick.usages (t : Tick) (refs : List Ref) : Dir Usage :=
  match Machine.usages t.run refs with
  | .ok m => m
  | .error _ => .empty

/-- `usages[name]`. -/
def usageOf (m : Dir Usage) (name : String) : Usage := (m.get? name).getD .zero

/-- The exact percentage of `wallNS` by which a counter went up. -/
def cpuShare (before now : Nat) (wallNS : Int) : Option ℚ :=
  if 0 < wallNS ∧ before ≤ now then some ((now - before : Nat) / (wallNS : ℚ) * 100) else none

/-- The entry of a workload in a sample. -/
def containerRow (prev : PrevCPU) (wallNS : Int) (m : Dir Usage) (ref : Ref) : ContainerMetrics :=
  let u := usageOf m ref.name
  { name := ref.name
    running := u.running
    cpuPct :=
      if prev.havePrev then (prev.cpu.get? ref.name).bind fun before => cpuShare before u.cpuNSec wallNS else none
    memBytes := u.memBytes
    tasks := u.tasks }

/-- `sample.Containers` of each tick, from one state of the loop on. -/
def containersFrom (prev : PrevCPU) : List Tick → List (List ContainerMetrics)
  | [] => []
  | t :: ts =>
    let m := t.usages t.refs
    let curCPU := Dir.empty.putAll (t.refs.map fun ref => (ref.name, (usageOf m ref.name).cpuNSec))
    t.refs.map (containerRow prev (t.now - prev.time) m) :: containersFrom ⟨t.now, curCPU, true⟩ ts

/-- The containers in the samples of `handleMetrics`. -/
def containers (ts : List Tick) : List (List ContainerMetrics) := containersFrom ⟨0, .empty, false⟩ ts

/-- The sample of each tick, from one state of the loop of `handleWorkloadMetrics` on. -/
def workloadFrom (ref : Ref) (prevTime : Int) (prevCPU : Nat) (havePrev : Bool) : List Tick → List ContainerMetrics
  | [] => []
  | t :: ts =>
    let u := usageOf (t.usages [ref]) ref.name
    { name := ref.name
      running := u.running
      cpuPct := if havePrev then cpuShare prevCPU u.cpuNSec (t.now - prevTime) else none
      memBytes := u.memBytes
      tasks := u.tasks } :: workloadFrom ref t.now u.cpuNSec true ts

/-- The samples of a workload's page. -/
def handleWorkloadMetrics (ref : Ref) (ts : List Tick) : List ContainerMetrics := workloadFrom ref 0 0 false ts

/-! ## What a tick reads -/

/-- What the units are at each time. -/
abbrev History := Int → String → UnitState

namespace Tick

variable (state : History)

/-- The command fails, it is not run and nothing comes back, or it answers with the units as they are by then. -/
def Reads (t : Tick) : Prop :=
  ∀ out, t.run (showUnits t.refs) = .ok out → out = "" ∨ Answers (state t.read) (t.refs.map Ref.unit) out

/-- The command has told of the units. -/
def answered (t : Tick) : Bool :=
  match t.run (showUnits t.refs) with
  | .ok out => out != ""
  | .error _ => false

/-- The usage of a workload as the tick reads it: that of its unit, or none where nothing was told. -/
def usage (t : Tick) (r : Ref) : Usage := if t.answered then (state t.read r.unit).usage else .zero

/-- The counter under a name, if a workload of that name was enabled. -/
def counter (t : Tick) (name : String) : Option Nat :=
  (t.refs.find? fun r => r.name == name).map fun r => (t.usage state r).cpuNSec

/-- What a tick shows of a workload, after the tick before it. -/
def shown (before : Option Tick) (t : Tick) (r : Ref) : ContainerMetrics where
  name := r.name
  running := (t.usage state r).running
  cpuPct := before.bind fun b =>
    (b.counter state r.name).bind fun n => cpuShare n (t.usage state r).cpuNSec (t.now - b.now)
  memBytes := (t.usage state r).memBytes
  tasks := (t.usage state r).tasks

/-- The workloads of a tick, as the service lets them be. -/
structure Sound (t : Tick) : Prop where
  accepted : ∀ r ∈ t.refs, r.Accepted
  names : (t.refs.map (·.name)).Nodup
  apart : Apart t.refs
  reads : t.Reads state

end Tick

section Ticks

variable {state : History} {t b : Tick} {ts : List Tick} {r : Ref}

theorem usageOf_tick (h : t.Sound state) (hr : r ∈ t.refs) : usageOf (t.usages t.refs) r.name = t.usage state r := by
  unfold Tick.usages Tick.usage Tick.answered
  have hrefs : t.refs ≠ [] := List.ne_nil_of_mem hr
  cases hrun : t.run (showUnits t.refs) with
  | ok out =>
    by_cases hempty : out = ""
    · subst hempty
      rw [usages_run hrefs hrun, parseUsages_empty]
      rfl
    · have hown := usagesOwn_of_nodup h.accepted h.names ((nodup_units_iff h.accepted h.names).2 h.apart)
      obtain ⟨m, hm, hget⟩ := hown (state t.read) t.run out hrun ((h.reads out hrun).resolve_left hempty)
      rw [hm]
      dsimp only
      unfold usageOf
      rw [hget r hr, if_pos (bne_iff_ne.2 hempty)]
      rfl
  | error e =>
    have hfails : Machine.usages t.run t.refs = .error e := by
      unfold Machine.usages
      rw [if_neg hrefs, hrun]
      rfl
    rw [hfails]
    rfl

/-- The state of the loop after a tick, or before the first. -/
def PrevCPU.after (state : History) : Option Tick → PrevCPU
  | none => ⟨0, .empty, false⟩
  | some b => ⟨b.now, Dir.empty.putAll (b.refs.map fun r => (r.name, (b.usage state r).cpuNSec)), true⟩

theorem after_cpu (hnames : (b.refs.map (·.name)).Nodup) (name : String) :
    (PrevCPU.after state (some b)).cpu.get? name = b.counter state name := by
  unfold PrevCPU.after Tick.counter
  dsimp only
  have hkeys : (b.refs.map fun r => (r.name, (b.usage state r).cpuNSec)).map Prod.fst = b.refs.map (·.name) := by
    rw [List.map_map]
    rfl
  cases hfind : b.refs.find? (fun r => r.name == name) with
  | some r =>
    have hname : r.name = name := by simpa using List.find?_some hfind
    rw [← hname]
    refine Dir.get?_putAll_of_mem (by rw [hkeys]; exact hnames) ?_
    exact List.mem_map.2 ⟨r, List.mem_of_find?_eq_some hfind, rfl⟩
  | none =>
    rw [Dir.get?_putAll_of_not_mem]
    · rfl
    · rw [hkeys]
      intro hmem
      obtain ⟨r, hr, hname⟩ := List.mem_map.1 hmem
      exact List.find?_eq_none.1 hfind r hr (by simpa using hname)

theorem containerRow_after {before : Option Tick} (ht : t.Sound state)
    (hbefore : ∀ b, before = some b → (b.refs.map (·.name)).Nodup) (hr : r ∈ t.refs) :
    containerRow (.after state before) (t.now - (PrevCPU.after state before).time) (t.usages t.refs) r =
      t.shown state before r := by
  unfold containerRow Tick.shown
  rw [usageOf_tick ht hr]
  cases before with
  | none => rfl
  | some b =>
    rw [after_cpu (hbefore b rfl)]
    rfl

/-- Each sample shows its tick, with percentages from the tick before: the loop keeps no more than that. -/
theorem containersFrom_after {before : Option Tick} (h : ∀ t ∈ ts, t.Sound state)
    (hbefore : ∀ b, before = some b → (b.refs.map (·.name)).Nodup) :
    containersFrom (.after state before) ts =
      List.zipWith (fun before t => t.refs.map (t.shown state before)) (before :: ts.map some) ts := by
  induction ts generalizing before with
  | nil => rfl
  | cons t ts ih =>
    have ht := h t List.mem_cons_self
    have hcur : Dir.empty.putAll (t.refs.map fun r => (r.name, (usageOf (t.usages t.refs) r.name).cpuNSec)) =
        (PrevCPU.after state (some t)).cpu :=
      congrArg _ (List.map_congr_left fun r hr => by rw [usageOf_tick ht hr])
    have hnames : ∀ b, some t = some b → (b.refs.map (·.name)).Nodup := by
      rintro b ⟨⟩
      exact ht.names
    have hrest := ih (fun t' ht' => h t' (List.mem_cons_of_mem _ ht')) hnames
    rw [containersFrom, hcur, List.map_cons, List.zipWith_cons_cons, ← hrest]
    exact congrArg (· :: _) (List.map_congr_left fun r hr => containerRow_after ht hbefore hr)

theorem containers_eq (h : ∀ t ∈ ts, t.Sound state) : containers ts =
    List.zipWith (fun before t => t.refs.map (t.shown state before)) (none :: ts.map some) ts := by
  have hnone : ∀ b, (none : Option Tick) = some b → (b.refs.map (·.name)).Nodup := nofun
  exact containersFrom_after h hnone

/-- The stream of a workload's page is the dashboard's, were its workload the only one. -/
theorem containersFrom_single {ref : Ref} {time : Int} {cpu : Dir Nat} {prevCPU : Nat} {havePrev : Bool}
    (hcpu : havePrev = true → cpu.get? ref.name = some prevCPU) :
    containersFrom ⟨time, cpu, havePrev⟩ (ts.map fun t => { t with refs := [ref] }) =
      (workloadFrom ref time prevCPU havePrev ts).map ([·]) := by
  induction ts generalizing time cpu prevCPU havePrev with
  | nil => rfl
  | cons t ts ih =>
    rw [List.map_cons, containersFrom, workloadFrom, List.map_cons]
    congr 1
    · cases havePrev with
      | false => rfl
      | true =>
        unfold containerRow
        dsimp only [List.map_cons, List.map_nil]
        rw [hcpu rfl]
        rfl
    · exact ih fun _ => Dir.get?_put_self

/-- A share is that of what the counter went up by. -/
theorem cpuShare_spec {n m : Nat} {wallNS : Int} {pct : ℚ} (h : cpuShare n m wallNS = some pct) :
    0 ≤ pct ∧ pct * wallNS = 100 * ((m : ℚ) - n) := by
  unfold cpuShare at h
  split at h
  · rename_i hpos
    cases h
    have hwall : (0 : ℚ) < wallNS := by exact_mod_cast hpos.1
    refine ⟨by positivity, ?_⟩
    rw [← Nat.cast_sub hpos.2]
    field_simp
  · cases h

/-- No unit uses more than `cores` processors. -/
def UsesAtMost (cores : ℚ) (state : History) : Prop := ∀ (unit : String) (t₀ t₁ : Int), t₀ ≤ t₁ →
  ((state t₁ unit).usage.cpuNSec : ℚ) ≤ (state t₀ unit).usage.cpuNSec + cores * (t₁ - t₀ : Int)

theorem usage_answered (h : t.answered = true) : t.usage state r = (state t.read r.unit).usage := if_pos h

theorem shown_nonneg {before : Option Tick} {pct : ℚ} (hpct : (t.shown state before r).cpuPct = some pct) :
    0 ≤ pct := by
  obtain ⟨b, -, hpct⟩ := Option.bind_eq_some_iff.1 hpct
  obtain ⟨n, -, hshare⟩ := Option.bind_eq_some_iff.1 hpct
  exact (cpuShare_spec hshare).1

/-- Between two answers a counter goes up by the processors the unit can use. -/
theorem shown_le {cores pct : ℚ} (huses : UsesAtMost cores state) (hb : b.answered = true) (ht : t.answered = true)
    (horder : b.read ≤ t.read) (hsame : ∀ r' ∈ b.refs, r'.name = r.name → r'.unit = r.unit)
    (hpct : (t.shown state (some b) r).cpuPct = some pct) :
    pct * (t.now - b.now : Int) ≤ 100 * cores * (t.read - b.read : Int) := by
  obtain ⟨n, hn, hshare⟩ := Option.bind_eq_some_iff.1 hpct
  obtain ⟨r', hfind, rfl⟩ := Option.map_eq_some_iff.1 hn
  have hname : r'.name = r.name := by simpa using List.find?_some hfind
  have hunit := hsame r' (List.mem_of_find?_eq_some hfind) hname
  rw [(cpuShare_spec hshare).2, usage_answered hb, usage_answered ht, hunit]
  have hup := huses r.unit b.read t.read horder
  linarith

/-- Each sample of the dashboard's stream shows the workloads enabled at its tick with what their own units have when
the command of the tick is answered, and takes each percentage from the counter that the tick before read under the same
name, and from no other; a command that fails, or that is not run, reads zeros. No percentage is negative. Between two
ticks that are told of their units, by the same names, a percentage is at most that of the processors a unit can use
in the time between the two answers, taken of the time between the two looks at the clock. The stream of a workload's
page shows what the dashboard shows of it alone. -/
theorem containers_measured (h : ∀ t ∈ ts, t.Sound state) :
    containers ts = List.zipWith (fun before t => t.refs.map (t.shown state before)) (none :: ts.map some) ts ∧
    (∀ row ∈ containers ts, ∀ c ∈ row, ∀ pct, c.cpuPct = some pct → 0 ≤ pct) ∧
    (∀ (cores : ℚ) (i : Nat) (b t : Tick) (row : List ContainerMetrics), UsesAtMost cores state →
      ts[i]? = some b → ts[i + 1]? = some t → b.answered = true → t.answered = true → b.read ≤ t.read →
      (∀ r' ∈ b.refs, ∀ r ∈ t.refs, r'.name = r.name → r'.unit = r.unit) →
      (containers ts)[i + 1]? = some row → ∀ c ∈ row, ∀ pct, c.cpuPct = some pct →
        pct * (t.now - b.now : Int) ≤ 100 * cores * (t.read - b.read : Int)) ∧
    ∀ ref, (handleWorkloadMetrics ref ts).map ([·]) = containers (ts.map fun t => { t with refs := [ref] }) := by
  have hshown := containers_eq h
  refine ⟨hshown, fun row hrow c hc pct hpct => ?_,
    fun cores i b t row huses hb ht hb' ht' horder hsame hrow c hc pct hpct => ?_, fun ref => ?_⟩
  · rw [hshown, ← List.map_uncurry_zip_eq_zipWith] at hrow
    obtain ⟨⟨before, t⟩, -, rfl⟩ := List.mem_map.1 hrow
    obtain ⟨r, -, rfl⟩ := List.mem_map.1 hc
    exact shown_nonneg hpct
  · -- the sample of a tick is shown after the one before
    have hzip : (none :: ts.map some)[i + 1]? = some (some b) := by
      rw [List.getElem?_cons_succ, List.getElem?_map, hb]
      rfl
    rw [hshown, List.getElem?_zipWith, hzip, ht] at hrow
    cases hrow
    obtain ⟨r, hr, rfl⟩ := List.mem_map.1 hc
    exact shown_le huses hb' ht' horder (fun r' hr' => hsame r' hr' r hr) hpct
  · have hsingle : containersFrom ⟨0, .empty, false⟩ (ts.map fun t => { t with refs := [ref] }) =
        (workloadFrom ref 0 0 false ts).map ([·]) := containersFrom_single nofun
    exact hsingle.symm

/-! ## A slow answer -/

theorem plain_toString (n : Nat) : Plain (toString n) := by
  have hdigits : ∀ c ∈ (toString n).toList, c.isDigit = true := by
    intro c hc
    have hlist : (toString n).toList = Nat.toDigits 10 n := Nat.toList_repr
    rw [hlist] at hc
    exact Nat.isDigit_of_mem_toDigits (by decide) (by decide) hc
  constructor
  · intro hmem
    exact absurd (hdigits _ hmem) (by decide)
  · intro c hc
    exact Go.isSpace_of_isDigit (hdigits c (List.mem_of_getLast? hc))

/-- An active unit with its counter. -/
def runningState (cpu : Nat) : UnitState where
  active := "active"
  memory := "1048576"
  cpu := toString cpu
  tasks := "4"
  plain v hv := by
    have hv' : v = "active" ∨ v = "1048576" ∨ v = toString cpu ∨ v = "4" := by simpa using hv
    rcases hv' with rfl | rfl | rfl | rfl
    · exact ⟨by decide, by simp; decide⟩
    · exact ⟨by decide, by simp; decide⟩
    · exact plain_toString cpu
    · exact ⟨by decide, by simp; decide⟩

/-- Every unit uses a whole processor from the start. -/
def wholeProcessor : History := fun t _ => runningState t.toNat

/-- A counter is read up to the largest number of 64 bits, which stands for none. -/
theorem parseAccounting_toString (n : Nat) : parseAccounting (toString n) = if n < 2 ^ 64 - 1 then n else 0 := by
  have hdigits : Go.parseDigits 0 (Nat.toDigits 10 n) = some n := by
    refine Go.parseDigits_eq_some.2 ⟨fun c hc => Nat.isDigit_of_mem_toDigits (by decide) (by decide) hc, ?_⟩
    rw [Nat.ofDigitChars_ten_toDigits]
  have hparse : Go.parseUint (toString n) = if n < 2 ^ 64 then some n else none := by
    have hlist : (toString n).toList = Nat.toDigits 10 n := Nat.toList_repr
    unfold Go.parseUint
    rw [hlist]
    split
    · rename_i hnil
      exact absurd hnil Nat.toDigits_ne_nil
    · rw [hdigits, Option.filter_some]
      simp
  unfold parseAccounting
  rw [hparse]
  split_ifs <;> simp <;> omega

theorem wholeProcessor_usesAtMost : UsesAtMost 1 wholeProcessor := by
  intro unit t₀ t₁ hle
  have hcpu : ∀ t, ((wholeProcessor t unit).usage).cpuNSec = if t.toNat < 2 ^ 64 - 1 then t.toNat else 0 :=
    fun t => parseAccounting_toString t.toNat
  have hint : (((wholeProcessor t₁ unit).usage.cpuNSec : Nat) : Int) ≤
      (wholeProcessor t₀ unit).usage.cpuNSec + (t₁ - t₀) := by
    rw [hcpu, hcpu]
    split <;> split <;> omega
  rw [one_mul]
  exact_mod_cast hint

/-- Two seconds after the first tick comes the second, and its command takes a second to answer; the third is not told
of the units. -/
def slowTicks : List Tick :=
  [⟨0, 0, threeRefs, fun _ => .ok (answer (wholeProcessor 0) (threeRefs.map Ref.unit))⟩,
    ⟨2000000000, 3000000000, threeRefs, fun _ => .ok (answer (wholeProcessor 3000000000) (threeRefs.map Ref.unit))⟩,
    ⟨4000000000, 4000000000, threeRefs, fun _ => .ok ""⟩]

theorem containers_measured_slow :
    (containers slowTicks).map (List.map (·.cpuPct)) =
      [[none, none, none], [some 150, some 150, some 150], [none, none, none]] ∧
    ∀ row, (containers slowTicks)[1]? = some row → ∀ c ∈ row, ∀ pct : ℚ, c.cpuPct = some pct →
      pct * (2000000000 - 0 : Int) ≤ 100 * 1 * (3000000000 - 0 : Int) := by
  have hnames : (threeRefs.map (·.name)).Nodup := by decide
  have hapart : Apart threeRefs := (nodup_units_iff threeRefs_accepted hnames).1 (by decide)
  have hsound : ∀ t ∈ slowTicks, t.Sound wholeProcessor := by
    intro t ht
    simp only [slowTicks, List.mem_cons, List.not_mem_nil, or_false] at ht
    rcases ht with rfl | rfl | rfl
    · exact ⟨threeRefs_accepted, hnames, hapart, fun out hout => .inr (Except.ok.inj hout ▸ answer_answers _ _)⟩
    · exact ⟨threeRefs_accepted, hnames, hapart, fun out hout => .inr (Except.ok.inj hout ▸ answer_answers _ _)⟩
    · exact ⟨threeRefs_accepted, hnames, hapart, fun out hout => .inl (Except.ok.inj hout).symm⟩
  obtain ⟨hshown, -, hbound, -⟩ := containers_measured hsound
  constructor
  · rw [hshown]
    decide +kernel
  · intro row
    have hslow := hbound 1 0 slowTicks[0] slowTicks[1] row wholeProcessor_usesAtMost rfl rfl (by decide +kernel)
      (by decide +kernel) (by decide) fun r' hr' r hr hname =>
        congrArg Ref.unit (List.inj_on_of_nodup_map hnames hr' hr hname)
    exact hslow

end Ticks

end Nixbox.Machine
