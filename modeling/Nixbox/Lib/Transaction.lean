/-
Programs that talk to a transactional database: single statements that commit by themselves, and
transactions that are rolled back unless their commit goes through. A transaction does all of what
its body means, or nothing.
-/
import Nixbox.Lib.Program

namespace Sql

open Effect Prog

universe u

/-- The error of a statement that fails for no reason of the data. -/
class Faulty (ε : Type) where
  fault : ε

/-- A connection: the committed database, that of the open transaction, and how often something was
committed. -/
structure Conn (δ : Type) where
  committed : δ
  tx : Option δ
  commits : Nat

/-- The calls on a connection, by what they answer. -/
inductive Op (δ ε : Type) : Type → Type 1
  | begin : Op δ ε (Except ε Unit)
  | query {α : Type} (f : δ → Except ε α) : Op δ ε (Except ε α)
  | exec {α : Type} (f : δ → Except ε (α × δ)) : Op δ ε (Except ε α)
  | commit : Op δ ε (Except ε Unit)
  | rollback : Op δ ε Unit

/-- A method on a connection, which may stop with an error. -/
abbrev Call (δ ε : Type) (α : Type) : Type 1 := ExceptT ε (Prog (Op δ ε)) α

variable {δ ε α β : Type} [Faulty ε]

namespace Conn

/-- A connection on which nothing was done yet. -/
def open_ (d : δ) : Conn δ := ⟨d, none, 0⟩

/-- The database a statement leaves: outside a transaction it is committed. -/
def put (c : Conn δ) (d : δ) : Conn δ :=
  match c.tx with
  | some _ => { c with tx := some d }
  | none => { c with
      committed := d
      commits := c.commits + 1 }

/-- The answer and effect of a call. -/
def run (c : Conn δ) : Op δ ε β → β × Conn δ
  | .begin => (.ok (), { c with tx := some c.committed })
  | .query f => (f (c.tx.getD c.committed), c)
  | .exec f =>
    match f (c.tx.getD c.committed) with
    | .ok (a, d) => (.ok a, c.put d)
    | .error e => (.error e, c)
  | .commit =>
    match c.tx with
    | some d => (.ok (), ⟨d, none, c.commits + 1⟩)
    | none => (.ok (), c)
  | .rollback => ((), { c with tx := none })

end Conn

/-- What a call answers that fails. -/
def Op.fault : Op δ ε β → Option β
  | .begin | .query _ | .exec _ | .commit => some (.error Faulty.fault)
  | .rollback => none

instance : Calls (Op δ ε) (Conn δ) := ⟨fun op c => c.run op, Op.fault⟩

/-- A call whose error ends the function. -/
def call (op : Op δ ε (Except ε α)) : Call δ ε α := ExceptT.mk (perform op)

/-- `Begin`, a deferred `Rollback`, the body and `Commit`; after the commit the rollback does
nothing. -/
def transaction (body : Call δ ε α) : Call δ ε α := do
  call .begin
  let r ← ExceptT.lift (do let a ← body; call .commit; return a : Call δ ε α).run
  ExceptT.lift (perform .rollback)
  match r with
  | .ok a => return a
  | .error e => throw e

/-! ## What a body means -/

/-- In an open transaction the body does what `m` does, or ends with an error; it commits nothing. -/
def Means (x : Call δ ε α) (m : StateT δ (Except ε) α) : Prop :=
  ∀ (c : Conn δ) (d : δ), c.tx = some d → Ends (fun r c' => ∃ d', c' = { c with tx := some d' } ∧
    ∀ a, r = .ok a → m.run d = .ok (a, d')) x.run c

theorem ends_call {op : Op δ ε (Except ε α)} {Q : Except ε α → Conn δ → Prop} {c : Conn δ} :
    Ends Q (call op).run c ↔ Q (c.run op).1 (c.run op).2 ∧ ∀ r, op.fault = some r → Q r c :=
  ends_perform

theorem means_pure (a : α) : Means (pure a : Call δ ε α) (pure a) := fun c d hc =>
  ends_return.2 ⟨d, by rw [← hc], fun b hb => by cases hb; rfl⟩

theorem means_exec (f : δ → Except ε (α × δ)) : Means (call (.exec f)) f := by
  intro c d hc
  refine ends_call.2 ⟨?_, fun r hr => ?_⟩
  · unfold Conn.run
    rw [hc, Option.getD_some]
    dsimp only
    split
    · rename_i a d' hf
      refine ⟨d', by simp [Conn.put, hc], fun b hb => ?_⟩
      cases hb
      exact hf
    · exact ⟨d, by rw [← hc], nofun⟩
  · cases hr
    exact ⟨d, by rw [← hc], nofun⟩

theorem Means.bind {x : Call δ ε α} {k : α → Call δ ε β} {m : StateT δ (Except ε) α}
    {n : α → StateT δ (Except ε) β} (hx : Means x m) (hk : ∀ a, Means (k a) (n a)) :
    Means (x >>= k) (m >>= n) := by
  intro c d hc
  refine ends_exceptT_bind.2 ((hx c d hc).mono fun r c' hr => ?_)
  obtain ⟨d', rfl, hm⟩ := hr
  cases r with
  | error e => exact ⟨d', rfl, nofun⟩
  | ok a =>
    refine (hk a _ d' rfl).mono fun r c'' hr => ?_
    obtain ⟨d'', rfl, hn⟩ := hr
    refine ⟨d'', rfl, fun b hb => ?_⟩
    show (m.run d >>= fun p => (n p.1).run p.2) = _
    rw [hm a rfl]
    exact hn b hb

theorem Means.mono {x : Call δ ε α} {m n : StateT δ (Except ε) α} (h : Means x m)
    (hmn : ∀ d a d', m.run d = .ok (a, d') → n.run d = .ok (a, d')) : Means x n := by
  intro c d hc
  refine (h c d hc).mono fun r c' hr => ?_
  obtain ⟨d', rfl, hm⟩ := hr
  exact ⟨d', rfl, fun a ha => hmn d a d' (hm a ha)⟩

omit [Faulty ε] in
theorem stateT_bind_ok {m : StateT δ (Except ε) α} {n : α → StateT δ (Except ε) β} {d d' : δ} {b : β}
    (h : (m >>= n).run d = .ok (b, d')) : ∃ a d₁, m.run d = .ok (a, d₁) ∧ (n a).run d₁ = .ok (b, d') := by
  change (m.run d >>= fun p => (n p.1).run p.2) = _ at h
  cases hm : m.run d with
  | error e => rw [hm] at h; exact nomatch h
  | ok p => rw [hm] at h; exact ⟨p.1, p.2, rfl, h⟩

/-! ## All or nothing -/

/-- From `c`, `m` was committed, or nothing was. -/
def AllOrNothing (m : StateT δ (Except ε) α) (c : Conn δ) (r : Except ε α) (c' : Conn δ) : Prop :=
  (c' = c ∧ ∃ e, r = .error e) ∨
    ∃ a d, m.run c.committed = .ok (a, d) ∧ r = .ok a ∧ c' = ⟨d, none, c.commits + 1⟩

variable {c : Conn δ}

theorem exec_allOrNothing (f : δ → Except ε (α × δ)) (hc : c.tx = none) :
    Ends (AllOrNothing f c) (call (.exec f)).run c := by
  refine ends_call.2 ⟨?_, fun r hr => ?_⟩
  · unfold Conn.run
    rw [hc, Option.getD_none]
    dsimp only
    split
    · rename_i a d hf
      exact .inr ⟨a, d, hf, rfl, by simp [Conn.put, hc]⟩
    · exact .inl ⟨rfl, _, rfl⟩
  · cases hr
    exact .inl ⟨rfl, _, rfl⟩

theorem transaction_allOrNothing {body : Call δ ε α} {m : StateT δ (Except ε) α} (h : Means body m)
    (hc : c.tx = none) : Ends (AllOrNothing m c) (transaction body).run c := by
  have hroll : ({ c with tx := none } : Conn δ) = c := by rw [← hc]
  refine ends_exceptT_bind.2 (ends_call.2 ⟨?_, fun r hr => ?_⟩)
  case refine_2 =>
    cases hr
    exact .inl ⟨rfl, _, rfl⟩
  -- in the transaction: the body and the commit
  have hinner : Ends (fun r c' => (∃ tx, c' = { c with tx := tx } ∧ ∃ e, r = .error e) ∨
      ∃ a d, m.run c.committed = .ok (a, d) ∧ r = .ok a ∧ c' = ⟨d, none, c.commits + 1⟩)
      (do let a ← body; call .commit; return a : Call δ ε α).run { c with tx := some c.committed } := by
    refine ends_exceptT_bind.2 ((h _ c.committed rfl).mono fun r c' hr => ?_)
    obtain ⟨d, rfl, hm⟩ := hr
    cases r with
    | error e => exact .inl ⟨some d, rfl, e, rfl⟩
    | ok a =>
      refine ends_exceptT_bind.2 (ends_call.2 ⟨?_, fun r hr => ?_⟩)
      · exact ends_return.2 (.inr ⟨a, d, hm a rfl, rfl, rfl⟩)
      · cases hr
        exact .inl ⟨some d, rfl, _, rfl⟩
  refine ends_exceptT_bind.2 (ends_lift.2 (hinner.mono fun r c' hr => ?_))
  refine ends_exceptT_bind.2 (ends_lift.2 (ends_perform.2 ⟨?_, nofun⟩))
  rcases hr with ⟨tx, rfl, e, rfl⟩ | ⟨a, d, hm, rfl, rfl⟩
  · exact ends_throw.2 (.inl ⟨hroll, e, rfl⟩)
  · exact ends_return.2 (.inr ⟨a, d, hm, rfl, rfl⟩)

/-- The same, without the answer. -/
def Committed (m : StateT δ (Except ε) α) (c c' : Conn δ) : Prop :=
  c' = c ∨ ∃ a d, m.run c.committed = .ok (a, d) ∧ c' = ⟨d, none, c.commits + 1⟩

omit [Faulty ε] in
theorem AllOrNothing.committed {m : StateT δ (Except ε) α} {r : Except ε α} {c' : Conn δ}
    (h : AllOrNothing m c r c') : Committed m c c' := by
  rcases h with ⟨rfl, -⟩ | ⟨a, d, hm, -, rfl⟩
  · exact .inl rfl
  · exact .inr ⟨a, d, hm, rfl⟩

/-- What answers without an error has committed something. -/
def OkCommits (c : Conn δ) (r : Except ε α) (c' : Conn δ) : Prop :=
  c.commits ≤ c'.commits ∧ ∀ a, r = .ok a → c.commits < c'.commits

omit [Faulty ε] in
theorem AllOrNothing.okCommits {m : StateT δ (Except ε) α} {r : Except ε α} {c' : Conn δ}
    (h : AllOrNothing m c r c') : OkCommits c r c' := by
  rcases h with ⟨rfl, e, rfl⟩ | ⟨a, d, -, -, rfl⟩
  · exact ⟨Nat.le_refl _, nofun⟩
  · exact ⟨Nat.le_succ _, fun _ _ => Nat.lt_succ_self _⟩

/-- The program only asks. -/
def Asks (x : Call δ ε α) : Prop :=
  Uses (fun _ op => match op with
    | .query _ => True
    | _ => False) x.run

omit [Faulty ε] in
theorem asks_query (f : δ → Except ε α) : Asks (call (.query f)) := uses_perform trivial

omit [Faulty ε] in
theorem asks_pure (a : α) : Asks (pure a : Call δ ε α) := uses_return a

omit [Faulty ε] in
theorem Asks.bind {x : Call δ ε α} {k : α → Call δ ε β} (hx : Asks x) (hk : ∀ a, Asks (k a)) :
    Asks (x >>= k) :=
  uses_exceptT_bind hx hk

theorem Asks.ends {x : Call δ ε α} (h : Asks x) : Ends (fun _ c' => c' = c) x.run c := by
  refine Uses.ends (I := fun c' => c' = c) (fun β op c' hop hc => ?_) h rfl
  cases op with
  | query f => exact hc
  | _ => exact hop.elim

/-- What is asked afterwards does not undo a commit, also if it fails. -/
theorem committed_then {x : Call δ ε α} {k : α → Call δ ε β} {m : StateT δ (Except ε) α}
    (hx : Ends (AllOrNothing m c) x.run c) (hk : ∀ a, Asks (k a)) :
    Ends (fun _ c' => Committed m c c') (x >>= k).run c := by
  refine ends_exceptT_bind.2 (hx.mono fun r c' hr => ?_)
  cases r with
  | error e => exact hr.committed
  | ok a =>
    refine (hk a).ends.mono fun _ c'' hc => ?_
    rw [hc]
    exact hr.committed

theorem okCommits_then {x : Call δ ε α} {k : α → Call δ ε β} (hx : Ends (OkCommits c) x.run c)
    (hk : ∀ a, Asks (k a)) : Ends (OkCommits c) (x >>= k).run c := by
  refine ends_exceptT_bind.2 (hx.mono fun r c' hr => ?_)
  cases r with
  | error e => exact ⟨hr.1, nofun⟩
  | ok a =>
    refine (hk a).ends.mono fun _ c'' hc => ?_
    rw [hc]
    exact ⟨hr.1, fun _ _ => hr.2 a rfl⟩

/-- A loop of statements. -/
theorem means_forEach {f : α → Call δ ε Unit} {g : δ → α → Except ε δ}
    (hf : ∀ a, Means (f a) fun d => (g d a).map fun d => ((), d)) (l : List α) :
    Means (forEach f l >>= fun _ => pure ()) fun d => (l.foldlM g d).map fun d => ((), d) := by
  induction l with
  | nil => exact means_pure ()
  | cons a l ih =>
    have hloop : (forEach f (a :: l) >>= fun _ => pure ()) = f a >>= fun _ => forEach f l >>= fun _ => pure () := by
      simp [forEach]
    rw [hloop]
    refine ((hf a).bind fun _ => ih).mono fun d u d' h => ?_
    obtain ⟨_, d₁, h₁, h₂⟩ := stateT_bind_ok h
    change (g d a).map _ = _ at h₁
    change (l.foldlM g d₁).map _ = _ at h₂
    show ((a :: l).foldlM g d).map _ = _
    cases hg : g d a with
    | error e => rw [hg] at h₁; exact nomatch h₁
    | ok d₂ =>
      rw [hg] at h₁
      cases h₁
      rw [List.foldlM_cons, hg]
      exact h₂

end Sql
