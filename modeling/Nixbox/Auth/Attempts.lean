/-
How many wrong passwords a client can try, whatever the order of the calls of all requests. The limiter
is asked before the backend and told after it, so the requests between the two count on top of it.
-/
import Nixbox.Auth.Sessions

namespace Nixbox.Auth

open Effect Prog

/-! ## Definitions -/

section Definitions

variable (ip : String)

/-- The next call of the thread tries credentials of the client, or counts a failure against it: the
limiter has let it through and does not know the outcome. -/
def attempting (t : Thread) : Bool :=
  match t.prog with
  | .call op _ => match op with
    | .authenticate .. => t.tag.clientIP == ip
    | .fail i => i == ip
    | _ => false
  | .ret _ => false

/-- The next call of the thread counts a failure against the client. -/
def failing (t : Thread) : Bool :=
  match t.prog with
  | .call op _ => match op with
    | .fail i => i == ip
    | _ => false
  | .ret _ => false

/-- The requests of the client between the limiter's check and the record of their outcome. -/
def crowd (p : Pool) : Nat := p.threads.countP (attempting ip)

/-- The call has tried wrong credentials of the client in the window from `t` on. -/
def wrongIn (t window : Time) (e : Event) : Bool :=
  rejects e.toExchange && e.tag.clientIP == ip && t ≤ e.found.time && e.found.time < t + window

/-- A login of the client has succeeded. -/
def LoginFrom (log : List Event) : Prop :=
  ∃ e ∈ log, e.tag.clientIP = ip ∧
    ∃ hash username x, e.toExchange = ⟨.createSession hash username x, .ok ()⟩

end Definitions

/-- After the step at most `k` requests of the client are between check and record. -/
def crowdAtMost (srv : Server) (ip : String) (k : Nat) (p : Pool) (m : Move) : Bool :=
  (step srv p m).all fun p' => decide (crowd ip p' ≤ k)

/-! ## The threads -/

section Threads

variable {srv : Server} {r : Request} {l : Trace} {prog : Prog Op Response} {ip : String}

/-- A thread tries, or counts a failure, only after a check or wrong credentials. -/
theorem attempting_order (h : prog.Keeps (order srv r) Ended l) (ha : attempting ip ⟨r, prog⟩ = true) :
    r.clientIP = ip ∧ (lastCall admits l = true ∨ lastCall rejects l = true) := by
  cases prog with
  | ret a => cases ha
  | call op k =>
    obtain ⟨⟨hdue, -⟩, -⟩ := keeps_call.1 h
    cases op with
    | authenticate => exact ⟨beq_iff_eq.1 ha, .inl hdue⟩
    | fail i => exact ⟨hdue.1.symm.trans (beq_iff_eq.1 ha), hdue.2⟩
    | _ => cases ha

/-- After wrong credentials the failure is counted next. -/
theorem failing_order (h : prog.Keeps (order srv r) Ended l) (hr : lastCall rejects l = true) :
    failing r.clientIP ⟨r, prog⟩ = true := by
  cases prog with
  | ret a =>
    have hend : Ended a l := keeps_ret.1 h
    exact absurd (hr.symm.trans hend) Bool.false_ne_true.symm
  | call op k =>
    obtain ⟨⟨hdue, hmust⟩, -⟩ := keeps_call.1 h
    have hfail := hmust hr
    cases op with
    | fail i => exact beq_iff_eq.2 hdue.1
    | _ => cases hfail

theorem attempting_of_failing {t : Thread} (h : failing ip t = true) : attempting ip t = true := by
  obtain ⟨r, prog⟩ := t
  cases prog with
  | ret a => cases h
  | call op k =>
    cases op with
    | fail i => exact h
    | _ => cases h

end Threads

/-! ## The limiter -/

/-- The failures of the client on record from `t` on. -/
def recorded (ip : String) (t : Time) (s : State) : Nat := (s.limiter.failures ip).countP (t ≤ ·)

/-- The call counts a failure against the client. -/
def counts (ip : String) (c : Exchange Op) : Bool :=
  match c with
  | ⟨.fail i, _⟩ => i == ip
  | _ => false

/-- The call forgets the failures of the client. -/
def forgets (ip : String) (c : Exchange Op) : Bool :=
  match c with
  | ⟨.clear i, _⟩ => i == ip
  | _ => false

section Limiter

variable {l : Limiter} {ip i : String} {t now : Time}

/-- While the window is open, pruning drops none of its failures. -/
theorem countP_prune (h : now < t + l.window) :
    (l.prune ip now).1.countP (t ≤ ·) = (l.failures ip).countP (t ≤ ·) := by
  rw [Limiter.prune_fst, List.countP_filter]
  refine List.countP_congr fun f _ => ?_
  simp only [Bool.and_eq_true, decide_eq_true_eq, and_iff_left_iff_imp]
  intro hf
  exact Int.lt_of_lt_of_le (Int.sub_right_lt_of_lt_add h) hf

theorem failures_blocked (h : now < t + l.window) :
    ((l.blocked i now).2.failures ip).countP (t ≤ ·) = (l.failures ip).countP (t ≤ ·) := by
  show ((l.prune i now).2.failures ip).countP (t ≤ ·) = _
  by_cases hi : ip = i
  · rw [← hi, Limiter.failures_prune_self, countP_prune h]
  · rw [Limiter.failures_prune_of_ne hi]

theorem failures_fail (h : now < t + l.window) : ((l.fail i now).failures ip).countP (t ≤ ·) =
    (l.failures ip).countP (t ≤ ·) + (if (i == ip) = true ∧ t ≤ now then 1 else 0) := by
  by_cases hi : ip = i
  · subst hi
    rw [Limiter.failures_fail_self, List.countP_append, countP_prune h, List.countP_singleton]
    simp
  · rw [Limiter.failures_fail_of_ne hi, if_neg fun h => hi (beq_iff_eq.1 h.1).symm]
    rfl

/-- A client that is let through has less than `max` failures on record. -/
theorem failures_lt_max (h : now < t + l.window) (hb : (l.blocked ip now).1 = false) :
    (l.failures ip).countP (t ≤ ·) < l.max := by
  rw [← countP_prune h]
  refine Nat.lt_of_le_of_lt List.countP_le_length ?_
  have hlt : ¬ l.max ≤ (l.prune ip now).1.length := of_decide_eq_false hb
  exact Nat.lt_of_not_le hlt

theorem blocked_inj {b : Bool} (h : (⟨.blocked i, b⟩ : Exchange Op) = ⟨.blocked ip, false⟩) :
    i = ip ∧ b = false := by
  cases h
  exact ⟨rfl, rfl⟩

/-- What a call does to the limiter: its settings stay, a failure is counted once, and it lets no
client through that has `max` of them on record. -/
theorem limiter_call (ip : String) (t : Time) {c : Exchange Op} {s s' : State}
    (h : (Calls.exec c.op s = (c.answer, s')) ∨ (Calls.fault c.op = some c.answer ∧ s' = s)) :
    s'.limiter.window = s.limiter.window ∧ s'.limiter.max = s.limiter.max ∧
      (s.time < t + s.limiter.window →
        (forgets ip c = false →
          recorded ip t s' = recorded ip t s + (if counts ip c = true ∧ t ≤ s.time then 1 else 0)) ∧
        (c = ⟨.blocked ip, false⟩ → recorded ip t s < s.limiter.max)) := by
  -- a call that leaves the limiter as it was
  have hsame : s'.limiter = s.limiter → counts ip c = false → admits c = false →
      s'.limiter.window = s.limiter.window ∧ s'.limiter.max = s.limiter.max ∧
        (s.time < t + s.limiter.window →
          (forgets ip c = false →
            recorded ip t s' = recorded ip t s + (if counts ip c = true ∧ t ≤ s.time then 1 else 0)) ∧
          (c = ⟨.blocked ip, false⟩ → recorded ip t s < s.limiter.max)) := by
    intro hl hc ha
    refine ⟨by rw [hl], by rw [hl], fun _ => ⟨fun _ => ?_, ?_⟩⟩
    · unfold recorded
      rw [hl, hc, if_neg fun h => Bool.false_ne_true h.1]
      rfl
    · rintro rfl
      cases ha
  obtain ⟨op, b⟩ := c
  rcases h with h | ⟨hfault, rfl⟩
  · cases op with
    | blocked i =>
      cases h
      refine ⟨rfl, rfl, fun hopen => ⟨fun _ => failures_blocked hopen, fun heq => ?_⟩⟩
      obtain ⟨rfl, hb⟩ := blocked_inj heq
      exact failures_lt_max hopen hb
    | fail i =>
      cases h
      refine ⟨rfl, rfl, fun hopen => ⟨fun _ => failures_fail hopen, fun heq => ?_⟩⟩
      exact absurd (congrArg admits heq) Bool.false_ne_true
    | clear i =>
      cases h
      refine ⟨rfl, rfl, fun hopen => ⟨fun hf => ?_, fun heq => absurd (congrArg admits heq) Bool.false_ne_true⟩⟩
      have hne : ip ≠ i := fun heq => by
        rw [heq] at hf
        simp [forgets] at hf
      show ((s.limiter.clear i).failures ip).countP (t ≤ ·) = _
      rw [Limiter.failures_clear_of_ne hne]
      rfl
    | createSession =>
      change State.exec _ s = _ at h
      unfold State.exec at h
      dsimp only at h
      split at h
      all_goals
        cases h
        exact hsame rfl rfl rfl
    | validSession =>
      change State.exec _ s = _ at h
      unfold State.exec at h
      dsimp only at h
      split at h
      all_goals
        cases h
        exact hsame rfl rfl rfl
    | _ =>
      cases h
      exact hsame rfl rfl rfl
  · cases op with
    | blocked => cases hfault
    | fail => cases hfault
    | _ => exact hsame rfl rfl rfl

end Limiter

/-! ## Every step -/

/-- Wrong credentials in the window are on record or about to be; and while the window is open, what is
on record from its start and the requests about to add to it are bounded together. -/
structure Bounded (srv : Server) (ip : String) (t window : Time) (max k : Nat) (p : Pool) : Prop where
  ordered : Ordered srv p
  hwindow : p.state.limiter.window = window
  hmax : p.state.limiter.max = max
  before : p.state.time < t → p.log.countP (wrongIn ip t window) = 0
  opened : p.state.time < t + window → recorded ip t p.state + crowd ip p ≤ max + k - 1 ∧
    p.log.countP (wrongIn ip t window) ≤ recorded ip t p.state + p.threads.countP (failing ip)
  total : p.log.countP (wrongIn ip t window) ≤ max + k - 1

section Steps

variable {srv : Server} {ip : String} {t window : Time} {max n : Nat} {p p' : Pool}

theorem failing_le_crowd : p.threads.countP (failing ip) ≤ crowd ip p :=
  List.countP_mono_left fun _ _ h => attempting_of_failing h

/-- While the window is open its bound follows. -/
theorem Bounded.of_open (hord : Ordered srv p) (hw : p.state.limiter.window = window) (hm : p.state.limiter.max = max)
    (hb : p.state.time < t → p.log.countP (wrongIn ip t window) = 0)
    (hsum : recorded ip t p.state + crowd ip p ≤ max + n - 1)
    (hwrong : p.log.countP (wrongIn ip t window) ≤ recorded ip t p.state + p.threads.countP (failing ip)) :
    Bounded srv ip t window max n p := by
  refine ⟨hord, hw, hm, hb, fun _ => ⟨hsum, hwrong⟩, ?_⟩
  have hfail : p.threads.countP (failing ip) ≤ crowd ip p := failing_le_crowd
  omega

theorem countP_snoc (q : Event → Bool) (log : List Event) (e : Event) :
    (log ++ [e]).countP q = log.countP q + if q e = true then 1 else 0 := by
  rw [List.countP_append, List.countP_singleton]

/-- What becomes of the count of threads when thread `k` goes on. -/
theorem countP_thread {ts : List Thread} {k : Nat} {u : Thread} (q : Thread → Bool) (u' : Thread)
    (hu : ts[k]? = some u) :
    (ts.set k u').countP q + (if q u = true then 1 else 0) = ts.countP q + (if q u' = true then 1 else 0) := by
  obtain ⟨hlt, rfl⟩ := List.getElem?_eq_some_iff.1 hu
  rw [List.countP_set hlt]
  have hpos := List.boole_getElem_le_countP (p := q) hlt
  omega

theorem Bounded.start (hb : Bounded srv ip t window max n p) (r : Request)
    (hord : Ordered srv { p with threads := p.threads ++ [⟨r, serve srv r⟩] }) :
    Bounded srv ip t window max n { p with threads := p.threads ++ [⟨r, serve srv r⟩] } := by
  have hnew : attempting ip ⟨r, serve srv r⟩ = false := by
    refine Bool.eq_false_iff.2 fun ha => ?_
    rcases (attempting_order (serve_order srv r) ha).2 with h | h <;> cases h
  have hnot : failing ip ⟨r, serve srv r⟩ = false := Bool.eq_false_iff.2 fun hf => by
    rw [attempting_of_failing hf] at hnew
    cases hnew
  refine ⟨hord, hb.hwindow, hb.hmax, hb.before, fun hopen => ?_, hb.total⟩
  have hboth := hb.opened hopen
  unfold crowd at hboth ⊢
  rwa [List.countP_append, List.countP_append, List.countP_singleton, List.countP_singleton, hnew, hnot]

theorem Bounded.wait (hb : Bounded srv ip t window max n p) (d : Nat)
    (hord : Ordered srv { p with state := { p.state with time := p.state.time + d } }) :
    Bounded srv ip t window max n { p with state := { p.state with time := p.state.time + d } } := by
  have hpassed : p.state.time ≤ p.state.time + d := Int.le_add_of_nonneg_right (Int.natCast_nonneg d)
  exact ⟨hord, hb.hwindow, hb.hmax, fun h => hb.before (Int.lt_of_le_of_lt hpassed h),
    fun h => hb.opened (Int.lt_of_le_of_lt hpassed h), hb.total⟩

theorem counts_eq (c : Exchange Op) (r : Request) (kk : c.β → Prog Op Response) :
    counts ip c = failing ip ⟨r, .call c.op kk⟩ := by
  obtain ⟨op, b⟩ := c
  cases op <;> rfl

theorem admits_eq {c : Exchange Op} (h : admits c = true) : ∃ i, c = ⟨.blocked i, false⟩ := by
  unfold admits at h
  split at h
  · exact ⟨_, rfl⟩
  · cases h

theorem rejects_eq {c : Exchange Op} (h : rejects c = true) :
    ∃ name pass, c = ⟨.authenticate name pass, .error .badCredentials⟩ := by
  unfold rejects at h
  split at h
  · exact ⟨_, _, rfl⟩
  · cases h

/-- The bound on what is on record and about to be, while the window is open. -/
def CountsBounded (ip : String) (t window : Time) (max n : Nat) (p : Pool) : Prop :=
  recorded ip t p.state + crowd ip p ≤ max + n - 1 ∧
    p.log.countP (wrongIn ip t window) ≤ recorded ip t p.state + p.threads.countP (failing ip)

/-- What a call `c` of thread `u` changes of the counts when the thread goes on as `u'`. -/
structure Counted (ip : String) (t window : Time) (p p' : Pool) (k : Nat) (u u' : Thread) (c : Exchange Op) : Prop where
  crowd : crowd ip p' + (if attempting ip u = true then 1 else 0) =
    crowd ip p + if attempting ip u' = true then 1 else 0
  failing : p'.threads.countP (failing ip) + (if counts ip c = true then 1 else 0) =
    p.threads.countP (failing ip) + if failing ip u' = true then 1 else 0
  recorded : recorded ip t p'.state = recorded ip t p.state + if counts ip c = true ∧ t ≤ p.state.time then 1 else 0
  wrong : p'.log.countP (wrongIn ip t window) = p.log.countP (wrongIn ip t window) +
    if wrongIn ip t window ⟨c, k, u.tag, p.state⟩ = true then 1 else 0
  counting : counts ip c = true → attempting ip u = true

section Counted

variable {k : Nat} {u u' : Thread} {c : Exchange Op}

/-- A thread that goes on to something else: it was counting a failure, or it was not counted. -/
theorem Counted.idle (h : Counted ip t window p p' k u u' c) (hb : CountsBounded ip t window max n p)
    (hbefore : p.state.time < t → p.log.countP (wrongIn ip t window) = 0)
    (hright : wrongIn ip t window ⟨c, k, u.tag, p.state⟩ = false) (hnext : attempting ip u' = false) :
    CountsBounded ip t window max n p' := by
  obtain ⟨hsum, hwrong⟩ := hb
  have hfailing : Auth.failing ip u' = false := Bool.eq_false_iff.2 fun hf => by
    rw [attempting_of_failing hf] at hnext
    cases hnext
  have hcrowd := h.crowd
  have hfail := h.failing
  unfold CountsBounded
  rw [hnext] at hcrowd
  rw [hfailing] at hfail
  rw [h.recorded, h.wrong, hright]
  cases hcounts : counts ip c with
  | false =>
    rw [hcounts] at hfail
    simp only [Bool.false_eq_true, if_false, false_and] at hcrowd hfail ⊢
    omega
  | true =>
    rw [h.counting hcounts] at hcrowd
    rw [hcounts] at hfail
    simp only [Bool.false_eq_true, if_false, if_true, true_and] at hcrowd hfail ⊢
    split
    · omega
    · rename_i hlate
      have hnone := hbefore (Int.not_le.1 hlate)
      omega

/-- Wrong credentials: the failure is counted next. -/
theorem Counted.rejected (h : Counted ip t window p p' k u u' c) (hb : CountsBounded ip t window max n p)
    (hc : counts ip c = false) (hwas : attempting ip u = true) (hnext : Auth.failing ip u' = true) :
    CountsBounded ip t window max n p' := by
  obtain ⟨hsum, hwrong⟩ := hb
  have hcrowd := h.crowd
  have hfail := h.failing
  unfold CountsBounded
  rw [hwas, attempting_of_failing hnext] at hcrowd
  rw [hc, hnext] at hfail
  rw [h.recorded, h.wrong, hc]
  simp only [Bool.false_eq_true, if_false, if_true, false_and] at hcrowd hfail ⊢
  split <;> omega

/-- The check lets a client through that has less than the most on record. -/
theorem Counted.admitted (h : Counted ip t window p p' k u u' c) (hb : CountsBounded ip t window max n p)
    (hc : counts ip c = false) (hright : wrongIn ip t window ⟨c, k, u.tag, p.state⟩ = false)
    (hcrowd : Auth.crowd ip p' ≤ n) (hpass : Auth.recorded ip t p.state < max) :
    CountsBounded ip t window max n p' := by
  obtain ⟨-, hwrong⟩ := hb
  have hfail := h.failing
  unfold CountsBounded
  rw [hc] at hfail
  rw [h.recorded, h.wrong, hc, hright]
  simp only [Bool.false_eq_true, if_false, false_and] at hfail ⊢
  omega

end Counted

/-- A thread makes a call, with no login of the client. -/
theorem Bounded.call (hb : Bounded srv ip t window max n p) {k : Nat} {fails : Bool} {u : Thread} {c : Exchange Op}
    {prog : Prog Op Response} (hu : p.threads[k]? = some u) (hadv : Advanced fails u.prog p.state c prog p'.state)
    (hthreads : p'.threads = p.threads.set k ⟨u.tag, prog⟩) (hlog : p'.log = p.log ++ [⟨c, k, u.tag, p.state⟩])
    (hord : Ordered srv p') (hcrowd : crowd ip p' ≤ n) (hno : forgets ip c = false) :
    Bounded srv ip t window max n p' := by
  obtain ⟨-, htime, -⟩ := minted_call hadv.effect
  obtain ⟨hw, hm, hlim⟩ := limiter_call ip t hadv.effect
  have hdue := hb.ordered.due hu hadv
  have hrest := (hadv.keeps (hb.ordered.kept k u hu)).2
  obtain ⟨kk, hnow, -⟩ := hadv.rest
  have hcount : p'.log.countP (wrongIn ip t window) = p.log.countP (wrongIn ip t window) +
      if wrongIn ip t window ⟨c, k, u.tag, p.state⟩ = true then 1 else 0 := by
    rw [hlog, countP_snoc]
  have hbefore : p'.state.time < t → p'.log.countP (wrongIn ip t window) = 0 := by
    intro h
    rw [htime] at h
    rw [hcount, hb.before h, if_neg]
    simp only [wrongIn, Bool.and_eq_true, decide_eq_true_eq]
    rintro ⟨⟨-, hge⟩, -⟩
    exact absurd h (Int.not_lt.2 hge)
  by_cases hopen : p.state.time < t + window
  · obtain ⟨hrec, hpass⟩ := hlim (by rw [hb.hwindow]; exact hopen)
    have hcounts : failing ip u = counts ip c := by
      rw [counts_eq c u.tag kk, ← hnow]
    have hcounted : Counted ip t window p p' k u ⟨u.tag, prog⟩ c := by
      refine ⟨?_, ?_, hrec hno, hcount, fun h => attempting_of_failing (hcounts.trans h)⟩
      · unfold crowd
        rw [hthreads]
        exact countP_thread (attempting ip) ⟨u.tag, prog⟩ hu
      · rw [hthreads, ← hcounts]
        exact countP_thread (failing ip) ⟨u.tag, prog⟩ hu
    have hnext : attempting ip ⟨u.tag, prog⟩ = true →
        u.tag.clientIP = ip ∧ (admits c = true ∨ rejects c = true) := by
      intro h
      have htries := attempting_order hrest h
      rwa [show (order srv u.tag).next _ c.op c.answer = _ ++ [c] from rfl, lastCall_snoc, lastCall_snoc] at htries
    have hright : ¬ (u.tag.clientIP = ip ∧ rejects c = true) →
        wrongIn ip t window ⟨c, k, u.tag, p.state⟩ = false := by
      intro hnot
      refine Bool.eq_false_iff.2 fun h => hnot ?_
      simp only [wrongIn, Bool.and_eq_true, beq_iff_eq] at h
      exact ⟨h.1.1.2, h.1.1.1⟩
    have hidle : ¬ (u.tag.clientIP = ip ∧ (admits c = true ∨ rejects c = true)) →
        CountsBounded ip t window max n p' :=
      fun hnot => hcounted.idle (hb.opened hopen) hb.before (hright fun h => hnot ⟨h.1, .inr h.2⟩)
        (Bool.eq_false_iff.2 fun h => hnot (hnext h))
    have hboth : CountsBounded ip t window max n p' := by
      -- of the client's calls only the check and the wrong credentials change what is about to be counted
      by_cases hip : u.tag.clientIP = ip
      · by_cases hr : rejects c = true
        · obtain ⟨name, pass, rfl⟩ := rejects_eq hr
          have hmust := failing_order hrest lastCall_snoc
          rw [hip] at hmust
          have hwas : attempting ip u = true := by
            rw [show u = ⟨u.tag, _⟩ from congrArg (Thread.mk u.tag) hnow]
            exact beq_iff_eq.2 hip
          exact hcounted.rejected (hb.opened hopen) rfl hwas hmust
        by_cases ha : admits c = true
        · obtain ⟨i, rfl⟩ := admits_eq ha
          obtain rfl : i = ip := hdue.trans hip
          have hlt := hpass rfl
          rw [hb.hmax] at hlt
          exact hcounted.admitted (hb.opened hopen) rfl (hright fun h => hr h.2) hcrowd hlt
        · exact hidle fun h => h.2.elim ha hr
      · exact hidle fun h => hip h.1
    exact .of_open hord (hw.trans hb.hwindow) (hm.trans hb.hmax) hbefore hboth.1 hboth.2
  · refine ⟨hord, hw.trans hb.hwindow, hm.trans hb.hmax, hbefore, fun h => absurd (htime ▸ h) hopen, ?_⟩
    rw [hcount, if_neg]
    · exact hb.total
    · simp only [wrongIn, Bool.and_eq_true, decide_eq_true_eq]
      exact fun h => hopen h.2

theorem LoginFrom.snoc {e : Event} (h : LoginFrom ip p.log) : LoginFrom ip (p.log ++ [e]) := by
  obtain ⟨d, hd, hlogin⟩ := h
  exact ⟨d, snoc_subset _ _ hd, hlogin⟩

/-- The failures of a client are forgotten after a login of it. -/
theorem Ordered.forgets_login (hord : Ordered srv p) {k : Nat} {fails : Bool} {u : Thread} {c : Exchange Op}
    {prog : Prog Op Response} {s' : State} (hu : p.threads[k]? = some u)
    (hadv : Advanced fails u.prog p.state c prog s') (hf : forgets ip c = true) : LoginFrom ip p.log := by
  have hdue := hord.due hu hadv
  obtain ⟨op, b⟩ := c
  cases op with
  | clear i =>
    obtain ⟨hi, hash, x, hcreated⟩ := hdue
    obtain rfl : i = ip := beq_iff_eq.1 hf
    obtain ⟨e, he, hk, hcreated⟩ := mem_trace.1 hcreated
    obtain ⟨t', ht', htag⟩ := hord.own e he
    rw [hk, hu] at ht'
    cases ht'
    exact ⟨e, he, by rw [← htag, hi], hash, _, x, hcreated⟩
  | _ => cases hf

/-- Every step keeps the bound while no login of the client succeeds and at most `n` of its requests
are between check and record. -/
theorem Bounded.step (hb : ¬ LoginFrom ip p.log → Bounded srv ip t window max n p) {m : Move} (hord : Ordered srv p)
    (hc : crowdAtMost srv ip n p m = true) (hs : Auth.step srv p m = some p') (hno : ¬ LoginFrom ip p'.log) :
    Bounded srv ip t window max n p' := by
  have hord' := hord.step hs
  unfold crowdAtMost at hc
  rw [hs, Option.all_some, decide_eq_true_eq] at hc
  cases m with
  | start r =>
    cases hs
    exact (hb hno).start r hord'
  | env d =>
    obtain ⟨s, hwait, rfl⟩ := Pool.step_env hs
    cases hwait
    exact (hb hno).wait d hord'
  | call k fails =>
    obtain ⟨u, c, prog, hu, hadv, hthreads, hlog⟩ := Pool.step_call hs
    rw [hlog] at hno
    refine (hb fun h => hno h.snoc).call hu hadv hthreads hlog hord' hc ?_
    exact Bool.eq_false_iff.2 fun hf => hno (hord.forgets_login hu hadv hf).snoc

end Steps

/-! ## Every run -/

/-- In every run without a successful login of the client, in which at most `n` of its requests are ever
between check and record, less than `max + n` wrong credentials of it reach the backend in any window. -/
theorem attempts_bounded {srv : Server} {max : Nat} {window now t : Time} {h : Host} {ms : List Move} {p : Pool}
    {ip : String} {n : Nat}
    (hc : Runs.Along (step srv) (fun p m => crowdAtMost srv ip n p m = true)
      (.fresh (.fresh (.newLoginLimiter max window) now h)) ms)
    (hrun : run srv (.fresh (.fresh (.newLoginLimiter max window) now h)) ms = some p) (hno : ¬ LoginFrom ip p.log) :
    p.log.countP (wrongIn ip t window) ≤ max + n - 1 := by
  have hfresh : Ordered srv (.fresh (.fresh (.newLoginLimiter max window) now h)) := Pool.keeping_fresh _
  have hbounded : Bounded srv ip t window max n (.fresh (.fresh (.newLoginLimiter max window) now h)) :=
    ⟨hfresh, rfl, rfl, fun _ => rfl, fun _ => ⟨Nat.zero_le _, Nat.zero_le _⟩, Nat.zero_le _⟩
  have hall := Runs.exec_inv (I := fun p => Ordered srv p ∧
    (¬ LoginFrom ip p.log → Bounded srv ip t window max n p))
    (fun p m p' hc hI hs => ⟨hI.1.step hs, Bounded.step hI.2 hI.1 hc hs⟩) hc ⟨hfresh, fun _ => hbounded⟩ hrun
  exact (hall.2 hno).total

/-- Wrong passwords of one client, one request a time. -/
def inTurn : Nat → List Move
  | 0 => []
  | n + 1 => inTurn n ++ [.start (loginRequest "no" "/")] ++ calls n 4

/-- Five of them have been answered. -/
def triedInTurn : Pool := (run exampleServer start (inTurn 5)).get (by decide +kernel)

/-- Six of them at once: all are checked before the first is tried. -/
def atOnce : List Move :=
  List.replicate 6 (.start (loginRequest "no" "/")) ++ (List.range 6).flatMap (calls · 2) ++
    (List.range 6).flatMap (calls · 2)

/-- All six have been answered. -/
def triedAtOnce : Pool := (run exampleServer start atOnce).get (by decide +kernel)

/-- No row has been created. -/
def noneCreated (log : List Event) : Bool := log.all fun e => !creates e.toExchange

theorem not_loginFrom {ip : String} {log : List Event} (h : noneCreated log = true) : ¬ LoginFrom ip log := by
  rintro ⟨e, he, -, hash, username, x, heq⟩
  have hnone := List.all_eq_true.1 h e he
  rw [heq] at hnone
  cases hnone

theorem attempts_bounded_inTurn : triedInTurn.log.countP (wrongIn "192.0.2.1" 0 minute) ≤ 5 := by
  have hrun : run exampleServer (.fresh (.fresh (.newLoginLimiter 5 minute) 0 exampleHost)) (inTurn 5) =
      some triedInTurn :=
    (Option.some_get _).symm
  exact attempts_bounded (n := 1) (by decide +kernel) hrun (not_loginFrom (by decide +kernel))

theorem attempts_not_bounded :
    ¬ ∀ (srv : Server) (max : Nat) (window now t : Time) (h : Host) (ms : List Move) (p : Pool) (ip : String),
      run srv (.fresh (.fresh (.newLoginLimiter max window) now h)) ms = some p → ¬ LoginFrom ip p.log →
      p.log.countP (wrongIn ip t window) ≤ max := by
  intro hall
  have hmost := hall exampleServer 5 minute 0 0 exampleHost atOnce triedAtOnce "192.0.2.1" (Option.some_get _).symm
    (not_loginFrom (by decide +kernel))
  exact absurd hmost (by decide +kernel)

end Nixbox.Auth
