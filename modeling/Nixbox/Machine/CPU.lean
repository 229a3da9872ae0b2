/-
The host's CPU percentage on the dashboard: the jiffies of `/proc/stat` summed with and without the idle
ones, and the differences of two readings in a row. The busy difference is a share of the total one as
long as the idle counters do not go back.
-/
import Mathlib.Algebra.BigOperators.Group.List.Basic
import Mathlib.Algebra.Order.Field.Rat
import Mathlib.Tactic.Positivity
import Mathlib.Tactic.Linarith
import Nixbox.Go.Split

namespace Nixbox.Machine

/-! ## Definitions -/

/-- The figures of `HostSample` that the percentage is made of. -/
structure CPUSample where
  total : UInt64
  busy : UInt64
  deriving DecidableEq, Repr

/-- The columns `idle` and `iowait`. -/
def isIdle (i : Nat) : Bool := i == 3 || i == 4

/-- One field after the label `cpu`; one that is no number is skipped. -/
def addField (acc : CPUSample) (field : String × Nat) : CPUSample :=
  match Go.parseUint field.1 with
  | none => acc
  | some n =>
    { total := acc.total + UInt64.ofNat n
      busy := if isIdle field.2 then acc.busy else acc.busy + UInt64.ofNat n }

/-- The fields of the first `cpu` line, with their columns. -/
def cpuFields (stat : String) : List (String × Nat) :=
  match (Go.split stat "\n").find? (Go.hasPrefix · "cpu ") with
  | none => []
  | some line => ((Go.fields line).drop 1).zipIdx

/-- `parseCPUStat`, in 64 bits. -/
def parseCPUStat (stat : String) : CPUSample := (cpuFields stat).foldl addField ⟨0, 0⟩

/-- The CPU figures of `Sample`: a file that cannot be read leaves them zero. -/
def sampleCPU : Option String → CPUSample
  | none => ⟨0, 0⟩
  | some stat => parseCPUStat stat

/-- What `handleMetrics` keeps of the reading before. -/
structure Prev where
  busy : UInt64
  total : UInt64
  havePrev : Bool

/-- `sample.Host.CPUPct`, exact. -/
def hostCPUPct (prev : Prev) (host : CPUSample) : Option ℚ :=
  if prev.havePrev ∧ prev.total < host.total then
    some ((host.busy - prev.busy).toNat / (host.total - prev.total).toNat * 100)
  else none

/-- The percentages `handleMetrics` emits from one state of its loop on, one a tick. -/
def metricsFrom (prev : Prev) : List (Option String) → List (Option ℚ)
  | [] => []
  | stat :: stats =>
    let host := sampleCPU stat
    hostCPUPct prev host :: metricsFrom ⟨host.busy, host.total, true⟩ stats

/-- The host's percentages in the samples of `handleMetrics`. -/
def handleMetrics (stats : List (Option String)) : List (Option ℚ) := metricsFrom ⟨0, 0, false⟩ stats

example : parseCPUStat "cpu  100 20 30 800 40 5 5 0\ncpu0 ...\n" = ⟨1000, 160⟩ := by decide +kernel

/-! The counters of a reading. -/

/-- What a field counts in the idle columns, or in the others. -/
def countIn (idle : Bool) (field : String × Nat) : Nat :=
  if isIdle field.2 = idle then (Go.parseUint field.1).getD 0 else 0

/-- The fields of a reading; none where the file cannot be read. -/
def fieldsOf : Option String → List (String × Nat)
  | none => []
  | some stat => cpuFields stat

/-- The sum of the busy columns, in naturals. -/
def busySum (stat : Option String) : Nat := ((fieldsOf stat).map (countIn false)).sum

/-- The sum of the idle columns, in naturals. -/
def idleSum (stat : Option String) : Nat := ((fieldsOf stat).map (countIn true)).sum

/-- The two sums together do not fit in 64 bits. -/
def Carries (stat : Option String) : Prop := 2 ^ 64 ≤ busySum stat % 2 ^ 64 + idleSum stat % 2 ^ 64

/-- From one reading to the next neither sum goes back; where the total stops overflowing, only the busy
sum counts. -/
structure Steady (stat stat' : Option String) : Prop where
  busy : busySum stat % 2 ^ 64 ≤ busySum stat' % 2 ^ 64
  idle : ((Carries stat ↔ Carries stat') ∧ idleSum stat % 2 ^ 64 ≤ idleSum stat' % 2 ^ 64) ∨
    (Carries stat ∧ ¬ Carries stat')

/-- No counter but the idle ones goes back. -/
def BusyKept (stat stat' : Option String) : Prop :=
  List.Forall₂ (fun field field' => countIn false field ≤ countIn false field') (fieldsOf stat) (fieldsOf stat')

/-- A percentage whose busy difference does not wrap and is at most the total one. -/
def SharesTotal (stat stat' : Option String) (pct : ℚ) : Prop :=
  (sampleCPU stat).busy ≤ (sampleCPU stat').busy ∧
    (sampleCPU stat').busy - (sampleCPU stat).busy ≤ (sampleCPU stat').total - (sampleCPU stat).total ∧
      0 ≤ pct ∧ pct ≤ 100

/-! ## What a reading sums to -/

section Sums

variable {stat stat' : Option String} {prev : Prev} {host : CPUSample} {pct : ℚ}

theorem addField_eq (acc : CPUSample) (field : String × Nat) : addField acc field =
    ⟨acc.total + UInt64.ofNat (countIn false field) + UInt64.ofNat (countIn true field),
      acc.busy + UInt64.ofNat (countIn false field)⟩ := by
  unfold addField countIn
  cases Go.parseUint field.1 with
  | none => simp
  | some n => cases isIdle field.2 <;> simp

theorem foldl_addField (fields : List (String × Nat)) (acc : CPUSample) : fields.foldl addField acc =
    ⟨acc.total + UInt64.ofNat (fields.map (countIn false)).sum + UInt64.ofNat (fields.map (countIn true)).sum,
      acc.busy + UInt64.ofNat (fields.map (countIn false)).sum⟩ := by
  induction fields generalizing acc with
  | nil => simp
  | cons field fields ih =>
    rw [List.foldl_cons, ih, addField_eq]
    simp only [List.map_cons, List.sum_cons, UInt64.ofNat_add]
    congr 1 <;> ac_rfl

/-- The sums of a reading, in 64 bits. -/
theorem sampleCPU_eq (stat : Option String) : sampleCPU stat =
    ⟨UInt64.ofNat (busySum stat) + UInt64.ofNat (idleSum stat), UInt64.ofNat (busySum stat)⟩ := by
  cases stat with
  | none => rfl
  | some stat =>
    show parseCPUStat stat = _
    unfold parseCPUStat
    rw [foldl_addField]
    simp only [UInt64.zero_add]
    rfl

theorem toNat_busy (stat : Option String) : (sampleCPU stat).busy.toNat = busySum stat % 2 ^ 64 := by
  rw [sampleCPU_eq]
  exact UInt64.toNat_ofNat'

theorem toNat_total (stat : Option String) :
    (sampleCPU stat).total.toNat = (busySum stat % 2 ^ 64 + idleSum stat % 2 ^ 64) % 2 ^ 64 := by
  rw [sampleCPU_eq, UInt64.toNat_add, UInt64.toNat_ofNat', UInt64.toNat_ofNat']

theorem steady_iff : Steady stat stat' ↔ busySum stat % 2 ^ 64 ≤ busySum stat' % 2 ^ 64 ∧
    (((Carries stat ↔ Carries stat') ∧ idleSum stat % 2 ^ 64 ≤ idleSum stat' % 2 ^ 64) ∨
      (Carries stat ∧ ¬ Carries stat')) :=
  ⟨fun h => ⟨h.busy, h.idle⟩, fun h => ⟨h.1, h.2⟩⟩

/-- Where the total has grown, the busy difference is a share of it if the sums are steady. -/
theorem shares_iff (h : (sampleCPU stat).total < (sampleCPU stat').total) :
    ((sampleCPU stat).busy ≤ (sampleCPU stat').busy ∧
      (sampleCPU stat').busy - (sampleCPU stat).busy ≤ (sampleCPU stat').total - (sampleCPU stat).total) ↔
        Steady stat stat' := by
  rw [steady_iff, UInt64.le_iff_toNat_le, toNat_busy, toNat_busy]
  refine and_congr_right fun hbusy => ?_
  have hle : (sampleCPU stat).busy ≤ (sampleCPU stat').busy := by
    rw [UInt64.le_iff_toNat_le, toNat_busy, toNat_busy]
    exact hbusy
  have hgrown := h
  rw [UInt64.lt_iff_toNat_lt, toNat_total, toNat_total] at hgrown
  rw [UInt64.le_iff_toNat_le, UInt64.toNat_sub_of_le _ _ hle,
    UInt64.toNat_sub_of_le _ _ (UInt64.le_of_lt h), toNat_busy, toNat_busy, toNat_total, toNat_total]
  unfold Carries
  omega

theorem BusyKept.busySum_le (h : BusyKept stat stat') : busySum stat ≤ busySum stat' := by
  unfold BusyKept at h
  unfold busySum
  generalize fieldsOf stat = fields at h
  generalize fieldsOf stat' = fields' at h
  induction h with
  | nil => exact le_rfl
  | cons hfield _ ih =>
    rw [List.map_cons, List.map_cons, List.sum_cons, List.sum_cons]
    exact Nat.add_le_add hfield ih

/-- For sums that fit and busy counters that do not go back, the idle sum decides. -/
theorem steady_iff_idle (hfits : busySum stat + idleSum stat < 2 ^ 64) (hfits' : busySum stat' + idleSum stat' < 2 ^ 64)
    (hkept : BusyKept stat stat') : Steady stat stat' ↔ idleSum stat ≤ idleSum stat' := by
  have hbusy := hkept.busySum_le
  rw [steady_iff]
  unfold Carries
  omega

theorem hostCPUPct_eq_some (h : hostCPUPct prev host = some pct) : prev.havePrev = true ∧ prev.total < host.total ∧
    pct = (host.busy - prev.busy).toNat / (host.total - prev.total).toNat * 100 := by
  unfold hostCPUPct at h
  split at h
  · rename_i hguard
    cases h
    exact ⟨hguard.1, hguard.2, rfl⟩
  · exact nomatch h

/-- A share of a total is between nothing and all of it. -/
theorem pct_bounds {d t : UInt64} (hd : d ≤ t) (ht : 0 < t.toNat) :
    (0 : ℚ) ≤ d.toNat / t.toNat * 100 ∧ (d.toNat : ℚ) / t.toNat * 100 ≤ 100 := by
  have hpos : (0 : ℚ) < t.toNat := by exact_mod_cast ht
  have hle : (d.toNat : ℚ) ≤ t.toNat := by exact_mod_cast UInt64.le_iff_toNat_le.1 hd
  have hshare : (d.toNat : ℚ) / t.toNat ≤ 1 := (div_le_one hpos).2 hle
  constructor
  · positivity
  · linarith

end Sums

/-! ## Every tick of a stream -/

section Ticks

variable {stats pre post : List (Option String)} {stat stat' : Option String} {prev : Prev} {pct : ℚ}

/-- The percentage of a tick is made of the reading before it. -/
theorem metricsFrom_getElem (prev : Prev) (stat stat' : Option String) (pre post : List (Option String)) :
    (metricsFrom prev (pre ++ stat :: stat' :: post))[pre.length + 1]? =
      some (hostCPUPct ⟨(sampleCPU stat).busy, (sampleCPU stat).total, true⟩ (sampleCPU stat')) := by
  induction pre generalizing prev with
  | nil => rfl
  | cons first pre ih => exact ih ⟨(sampleCPU first).busy, (sampleCPU first).total, true⟩

/-- A percentage is a share of the total for every two readings in a row exactly if the sums are steady
wherever the total has grown. -/
theorem handleMetrics_spec (stats : List (Option String)) :
    (∀ pre stat stat' post pct, stats = pre ++ stat :: stat' :: post →
        (handleMetrics stats)[pre.length + 1]? = some (some pct) → SharesTotal stat stat' pct) ↔
      ∀ pre stat stat' post, stats = pre ++ stat :: stat' :: post →
        (sampleCPU stat).total < (sampleCPU stat').total → Steady stat stat' := by
  constructor
  · intro hall pre stat stat' post heq hgrown
    have htick := metricsFrom_getElem ⟨0, 0, false⟩ stat stat' pre post
    have hpct : hostCPUPct ⟨(sampleCPU stat).busy, (sampleCPU stat).total, true⟩ (sampleCPU stat') = some _ :=
      if_pos ⟨rfl, hgrown⟩
    rw [hpct, ← heq] at htick
    have hshares := hall pre stat stat' post _ heq htick
    exact (shares_iff hgrown).1 ⟨hshares.1, hshares.2.1⟩
  · intro hall pre stat stat' post pct heq hemitted
    have htick := metricsFrom_getElem ⟨0, 0, false⟩ stat stat' pre post
    rw [← heq] at htick
    obtain ⟨-, hgrown, hpct⟩ := hostCPUPct_eq_some (Option.some.inj (htick.symm.trans hemitted))
    have hshares := (shares_iff hgrown).2 (hall pre stat stat' post heq hgrown)
    have hpos : 0 < ((sampleCPU stat').total - (sampleCPU stat).total).toNat := by
      rw [UInt64.toNat_sub_of_le _ _ (UInt64.le_of_lt hgrown)]
      exact Nat.sub_pos_of_lt (UInt64.lt_iff_toNat_lt.1 hgrown)
    rw [hpct]
    exact ⟨hshares.1, hshares.2, pct_bounds hshares.2 hpos⟩

/-- Five jiffies less of idle time, ten more of user time. -/
theorem handleMetrics_exceeds : ¬ ∀ (stats pre : List (Option String)) (stat stat' : Option String)
    (post : List (Option String)) (pct : ℚ), stats = pre ++ stat :: stat' :: post → BusyKept stat stat' →
      (handleMetrics stats)[pre.length + 1]? = some (some pct) → SharesTotal stat stat' pct := by
  intro hall
  have hkept : BusyKept (some "cpu  100 0 30 800 40\n") (some "cpu  110 0 30 795 40\n") := by
    unfold BusyKept
    decide +kernel
  have hshares := hall [some "cpu  100 0 30 800 40\n", some "cpu  110 0 30 795 40\n"] [] _ _ [] _ rfl hkept rfl
  exact absurd hshares.2.1 (by decide +kernel)

end Ticks

end Nixbox.Machine
