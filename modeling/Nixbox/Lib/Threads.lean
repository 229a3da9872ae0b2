/-
Programs side by side. Each takes its calls one at a time, between those of the others, so what a
call finds is up to the others. What is still known of a program is the discipline its calls keep
whatever they are answered; a pool of programs keeps the discipline of each.
-/
import Nixbox.Lib.Program
import Nixbox.Lib.Runs

namespace Effect

universe u v

/-- A call that was made, with its answer. -/
structure Exchange (Op : Type → Type u) where
  {β : Type}
  op : Op β
  answer : β

/-- An answer of the call: in some state, or by failing. -/
def Calls.Answers {Op : Type → Type u} {σ β : Type} [Calls Op σ] (op : Op β) (b : β) : Prop :=
  (∃ s : σ, (Calls.exec op s).1 = b) ∨ Calls.fault op = some b

/-- A discipline of calls: which ones are allowed from `κ` on, and where an answer leads. -/
structure Discipline (Op : Type → Type u) (κ : Type v) where
  allows {β : Type} : κ → Op β → Prop
  next {β : Type} : κ → Op β → β → κ

/-- Where a sequence of calls leads. -/
def Discipline.after {Op : Type → Type u} {κ : Type v} (D : Discipline Op κ) (q : κ)
    (l : List (Exchange Op)) : κ :=
  l.foldl (fun q c => D.next q c.op c.answer) q

/-- Where what is known of the calls is the calls themselves. -/
theorem Discipline.after_trace {Op : Type → Type u} {D : Discipline Op (List (Exchange Op))}
    (h : ∀ {β : Type} (l : List (Exchange Op)) (op : Op β) (b : β), D.next l op b = l ++ [⟨op, b⟩])
    (l more : List (Exchange Op)) : D.after l more = l ++ more := by
  induction more generalizing l with
  | nil => exact (List.append_nil l).symm
  | cons c more ih =>
    show D.after (D.next l c.op c.answer) more = _
    rw [h, ih, List.append_assoc, List.singleton_append]

namespace Prog

variable {Op : Type → Type u} {α β σ ε : Type} {κ : Type v} [Calls Op σ]

/-! ## One call -/

/-- The next call of the program is made, failing if it is to and can. -/
def advance (fails : Bool) (p : Prog Op α) (s : σ) : Option (Exchange Op × Prog Op α × σ) :=
  match p with
  | ret _ => none
  | call op k =>
    match if fails then Calls.fault op else none with
    | some b => some (⟨op, b⟩, k b, s)
    | none => some (⟨op, (Calls.exec op s).1⟩, k (Calls.exec op s).1, (Calls.exec op s).2)

/-- The program has returned. -/
def returned : Prog Op α → Bool
  | ret _ => true
  | call .. => false

/-- A call is made: it happens, or it fails and changes nothing. -/
inductive Advanced (fails : Bool) : Prog Op α → σ → Exchange Op → Prog Op α → σ → Prop
  | made {β : Type} {op : Op β} {k : β → Prog Op α} {s : σ} (h : fails = true → Calls.fault op = none) :
    Advanced fails (call op k) s ⟨op, (Calls.exec op s).1⟩ (k (Calls.exec op s).1) (Calls.exec op s).2
  | failed {β : Type} {op : Op β} {k : β → Prog Op α} {s : σ} {b : β} (hf : fails = true)
    (h : Calls.fault op = some b) : Advanced fails (call op k) s ⟨op, b⟩ (k b) s

theorem advance_some {fails : Bool} {p p' : Prog Op α} {s s' : σ} {c : Exchange Op}
    (h : p.advance fails s = some (c, p', s')) : Advanced fails p s c p' s' := by
  cases p with
  | ret a => cases h
  | call op k =>
    change (match if fails then Calls.fault op else none with
      | some b => some ((⟨op, b⟩ : Exchange Op), k b, s)
      | none => some (⟨op, (Calls.exec op s).1⟩, k (Calls.exec op s).1, (Calls.exec op s).2)) = _ at h
    cases fails with
    | false =>
      cases h
      exact .made nofun
    | true =>
      rw [if_pos rfl] at h
      cases hb : Calls.fault op with
      | none =>
        rw [hb] at h
        cases h
        exact .made fun _ => hb
      | some b =>
        rw [hb] at h
        cases h
        exact .failed rfl hb

/-- A program that has not returned has a next call. -/
theorem advance_call (fails : Bool) (op : Op β) (k : β → Prog Op α) (s : σ) :
    ∃ b s', (call op k).advance fails s = some (⟨op, b⟩, k b, s') := by
  show ∃ b s', (match if fails then Calls.fault op else none with
    | some b => some ((⟨op, b⟩ : Exchange Op), k b, s)
    | none =>
      some (⟨op, (Calls.exec op s).1⟩, k (Calls.exec op s).1, (Calls.exec op s).2)) = some (⟨op, b⟩, k b, s')
  split
  · exact ⟨_, _, rfl⟩
  · exact ⟨_, _, rfl⟩

/-- What a call does: what it does to the state with its answer, or nothing if it fails. -/
theorem Advanced.effect {fails : Bool} {p p' : Prog Op α} {s s' : σ} {c : Exchange Op}
    (h : Advanced fails p s c p' s') :
    (Calls.exec c.op s = (c.answer, s')) ∨ (Calls.fault c.op = some c.answer ∧ s' = s) := by
  cases h with
  | made => exact .inl rfl
  | failed _ hb => exact .inr ⟨hb, rfl⟩

/-- The program was about to make the call, and goes on with its answer. -/
theorem Advanced.rest {fails : Bool} {p p' : Prog Op α} {s s' : σ} {c : Exchange Op}
    (h : Advanced fails p s c p' s') : ∃ k, p = call c.op k ∧ p' = k c.answer := by
  cases h with
  | @made _ op k => exact ⟨k, rfl, rfl⟩
  | @failed _ op k => exact ⟨k, rfl, rfl⟩

/-- A program alone goes on as it runs. -/
theorem Advanced.runWith {fails : Bool} {p p' : Prog Op α} {s s' : σ} {c : Exchange Op}
    (h : Advanced fails p s c p' s') (fs : List Bool) : p.runWith (fails :: fs) s = p'.runWith fs s' := by
  cases h with
  | @made _ op k _ hno =>
    rw [runWith_call]
    dsimp only [List.headD_cons]
    split
    · rename_i b hf hb
      rw [hno rfl] at hb
      cases hb
    · rfl
  | @failed _ op k _ b hf hb =>
    subst hf
    rw [runWith_call, hb]
    rfl

/-! ## Keeping a discipline -/

section Keeps

variable {D : Discipline Op κ} {E : α → κ → Prop} {q : κ}

/-- From `q` on every call is allowed where it comes, whatever the answers, and the program returns
where `E` holds. -/
def Keeps (D : Discipline Op κ) (E : α → κ → Prop) : κ → Prog Op α → Prop
  | q, ret a => E a q
  | q, call op k => D.allows q op ∧ ∀ b, Calls.Answers op b → (k b).Keeps D E (D.next q op b)

theorem keeps_ret {a : α} : (ret a : Prog Op α).Keeps D E q ↔ E a q := Iff.rfl

theorem keeps_call {op : Op β} {k : β → Prog Op α} : (call op k).Keeps D E q ↔
    D.allows q op ∧ ∀ b, Calls.Answers op b → (k b).Keeps D E (D.next q op b) := Iff.rfl

/-- A call of a program that keeps the discipline is allowed, and the rest keeps it from where the
call has led. -/
theorem Advanced.keeps {fails : Bool} {p p' : Prog Op α} {s s' : σ} {c : Exchange Op}
    (h : Advanced fails p s c p' s') (hp : p.Keeps D E q) :
    D.allows q c.op ∧ p'.Keeps D E (D.next q c.op c.answer) := by
  cases h with
  | made => exact ⟨(keeps_call.1 hp).1, (keeps_call.1 hp).2 _ (.inl ⟨s, rfl⟩)⟩
  | failed _ hb => exact ⟨(keeps_call.1 hp).1, (keeps_call.1 hp).2 _ (.inr hb)⟩

theorem Keeps.mono {E' : α → κ → Prop} {p : Prog Op α} (h : p.Keeps D E q) (hE : ∀ a q, E a q → E' a q) :
    p.Keeps D E' q := by
  induction p generalizing q with
  | ret a => exact hE _ _ h
  | call op k ih => exact ⟨h.1, fun b hb => ih b (h.2 b hb)⟩

theorem keeps_perform {E : β → κ → Prop} {op : Op β} (h : D.allows q op)
    (hE : ∀ b, Calls.Answers op b → E b (D.next q op b)) : (perform op).Keeps D E q :=
  ⟨h, hE⟩

theorem keeps_bind {p : Prog Op α} {f : α → Prog Op β} {E : β → κ → Prop} :
    (p >>= f).Keeps D E q ↔ p.Keeps D (fun a q => (f a).Keeps D E q) q := by
  induction p generalizing q with
  | ret a => exact Iff.rfl
  | call op k ih => exact and_congr Iff.rfl (forall_congr' fun b => imp_congr_right fun _ => ih b)

/-- A call, and what its answers lead to. -/
theorem keeps_next {op : Op β} {f : β → Prog Op α} (h : D.allows q op)
    (hf : ∀ b, Calls.Answers op b → (f b).Keeps D E (D.next q op b)) : (perform op >>= f).Keeps D E q :=
  keeps_bind.2 (keeps_perform h hf)

/-- The sequence rule for programs that may stop early. -/
theorem Keeps.seqE {P : α → κ → Prop} {E : Except ε β → κ → Prop} {x : ExceptT ε (Prog Op) α}
    {f : α → ExceptT ε (Prog Op) β}
    (hx : Keeps D (fun r q => match r with | .ok a => P a q | .error e => E (.error e) q) q x.run)
    (hf : ∀ a q, P a q → Keeps D E q (f a).run) : Keeps D E q (x >>= f).run := by
  rw [ExceptT.run_bind, keeps_bind]
  refine hx.mono fun r q hr => ?_
  cases r with
  | ok a => exact hf a q hr
  | error e => exact hr

theorem keeps_return {E : Except ε α → κ → Prop} {a : α} :
    Keeps D E q (pure a : ExceptT ε (Prog Op) α).run ↔ E (.ok a) q := Iff.rfl

theorem keeps_throw {E : Except ε α → κ → Prop} {e : ε} :
    Keeps D E q (throw e : ExceptT ε (Prog Op) α).run ↔ E (.error e) q := Iff.rfl

theorem keeps_lift {E : Except ε α → κ → Prop} {p : Prog Op α} :
    Keeps D E q (ExceptT.lift p : ExceptT ε (Prog Op) α).run ↔ p.Keeps D (fun a => E (.ok a)) q := by
  show Keeps D E q (Except.ok <$> p) ↔ _
  rw [← bind_pure_comp, keeps_bind]
  exact Iff.rfl

theorem keeps_adapt {ε' : Type} {E : Except ε' α → κ → Prop} {x : ExceptT ε (Prog Op) α} {g : ε → ε'} :
    Keeps D E q (x.adapt g).run ↔ Keeps D (fun r => E (r.mapError g)) q x.run := by
  show Keeps D E q (Except.mapError g <$> x.run) ↔ _
  rw [← bind_pure_comp, keeps_bind]
  exact Iff.rfl

/-- Calls that are allowed and lead nowhere. -/
theorem Uses.keeps {P : ∀ β : Type, Op β → Prop} {p : Prog Op α} (h : p.Uses P)
    (hP : ∀ (β : Type) (op : Op β), P β op → D.allows q op ∧ ∀ b, D.next q op b = q) :
    p.Keeps D (fun _ q' => q' = q) q := by
  induction p with
  | ret a => exact rfl
  | call op k ih =>
    obtain ⟨hop, hk⟩ := uses_call.1 h
    obtain ⟨hallow, hnext⟩ := hP _ op hop
    refine ⟨hallow, fun b _ => ?_⟩
    rw [hnext]
    exact ih b (hk b)

/-- Calls that are allowed wherever `I` holds, and lead to where it does. -/
theorem Uses.keeps_inv {P : ∀ β : Type, Op β → Prop} {I : κ → Prop} {p : Prog Op α} (h : p.Uses P)
    (hP : ∀ (β : Type) (op : Op β) q, P β op → I q → D.allows q op ∧ ∀ b, I (D.next q op b)) (hq : I q) :
    p.Keeps D (fun _ => I) q := by
  induction p generalizing q with
  | ret a => exact hq
  | call op k ih =>
    obtain ⟨hop, hk⟩ := uses_call.1 h
    obtain ⟨hallow, hnext⟩ := hP _ op q hop hq
    exact ⟨hallow, fun b _ => ih b (hk b) (hnext b)⟩

/-- A loop whose body keeps `I`, and relates what it returns to what it was called for. -/
theorem keeps_forEach {I : κ → Prop} {R : α → β → Prop} {f : α → ExceptT ε (Prog Op) β} {l : List α}
    (hf : ∀ a ∈ l, ∀ q, I q → Keeps D (fun r q => I q ∧ ∀ b, r = .ok b → R a b) q (f a).run) (hq : I q) :
    Keeps D (fun r q => I q ∧ ∀ bs, r = .ok bs → List.Forall₂ R l bs) q (forEach f l).run := by
  induction l generalizing q with
  | nil =>
    refine keeps_return.2 ⟨hq, fun bs h => ?_⟩
    cases h
    exact .nil
  | cons a l ih =>
    refine Keeps.seqE (P := fun b q => I q ∧ R a b) ?_ fun b q hb => ?_
    · refine (hf a (.head _) q hq).mono fun r q h => ?_
      cases r with
      | ok b => exact ⟨h.1, h.2 b rfl⟩
      | error e => exact ⟨h.1, nofun⟩
    · refine Keeps.seqE (P := fun bs q => I q ∧ List.Forall₂ R l bs) ?_ fun bs q hbs => ?_
      · refine (ih (fun a ha => hf a (.tail _ ha)) hb.1).mono fun r q h => ?_
        cases r with
        | ok bs => exact ⟨h.1, h.2 bs rfl⟩
        | error e => exact ⟨h.1, nofun⟩
      · refine keeps_return.2 ⟨hbs.1, fun bs' h => ?_⟩
        cases h
        exact .cons hb.2 hbs.2

attribute [irreducible] Keeps

end Keeps

end Prog

/-! ## A pool of threads -/

/-- A program among others: what it was started for, and what is left of it. -/
structure Thread (Op : Type → Type u) (ι α : Type) where
  tag : ι
  prog : Prog Op α

/-- A call that was made: by which thread, what that was started for, and the state it found. -/
structure Event (Op : Type → Type u) (σ ι : Type) extends Exchange Op where
  thread : Nat
  tag : ι
  found : σ

/-- The shared state, the threads, and the calls they have made so far. -/
structure Pool (Op : Type → Type u) (σ ι α : Type) where
  state : σ
  threads : List (Thread Op ι α)
  log : List (Event Op σ ι)

/-- A thread is started, thread `k` makes its next call, or the environment acts on the state. -/
inductive Move (ι η : Type)
  | start (i : ι)
  | call (k : Nat) (fails : Bool)
  | env (e : η)

namespace Pool

variable {Op : Type → Type u} {α σ ι η : Type} {κ : Type v} [Calls Op σ]

/-- A pool before the first thread. -/
def fresh (s : σ) : Pool Op σ ι α := ⟨s, [], []⟩

variable (body : ι → Prog Op α) (env : η → σ → Option σ)

/-- One step of the pool; a thread that is not there or has returned has none. -/
def step (p : Pool Op σ ι α) : Move ι η → Option (Pool Op σ ι α)
  | .start i => some { p with threads := p.threads ++ [⟨i, body i⟩] }
  | .call k fails => do
    let t ← p.threads[k]?
    let (c, prog, s) ← t.prog.advance fails p.state
    return ⟨s, p.threads.set k ⟨t.tag, prog⟩, p.log ++ [⟨c, k, t.tag, p.state⟩]⟩
  | .env e => (env e p.state).map fun s => { p with state := s }

/-- So many steps. -/
def run (p : Pool Op σ ι α) (ms : List (Move ι η)) : Option (Pool Op σ ι α) := Runs.exec (step body env) p ms

/-- Every thread has returned. -/
def returned (p : Pool Op σ ι α) : Bool := p.threads.all fun t => t.prog.returned

variable {body env} {p p' : Pool Op σ ι α}

theorem step_call {k : Nat} {fails : Bool} (h : step body env p (.call k fails) = some p') :
    ∃ t c prog, p.threads[k]? = some t ∧ Prog.Advanced fails t.prog p.state c prog p'.state ∧
      p'.threads = p.threads.set k ⟨t.tag, prog⟩ ∧ p'.log = p.log ++ [⟨c, k, t.tag, p.state⟩] := by
  obtain ⟨t, ht, h⟩ := Option.bind_eq_some_iff.1 h
  obtain ⟨⟨c, prog, s⟩, hadv, h⟩ := Option.bind_eq_some_iff.1 h
  cases h
  exact ⟨t, c, prog, ht, Prog.advance_some hadv, rfl, rfl⟩

theorem step_env {e : η} (h : step body env p (.env e) = some p') :
    ∃ s, env e p.state = some s ∧ p' = { p with state := s } := by
  obtain ⟨s, hs, h⟩ := Option.map_eq_some_iff.1 h
  exact ⟨s, hs, h.symm⟩

/-- A thread that meets no other runs as its program does. -/
theorem alone (i : ι) (prog : Prog Op α) (s : σ) (log : List (Event Op σ ι)) (faults : List Bool) :
    ∃ (fs : List Bool) (log' : List (Event Op σ ι)),
      run body env ⟨s, [⟨i, prog⟩], log⟩ (fs.map (.call 0)) =
        some ⟨(prog.runWith faults s).2, [⟨i, .ret (prog.runWith faults s).1⟩], log'⟩ := by
  induction prog generalizing s log faults with
  | ret a => exact ⟨[], log, rfl⟩
  | call op k ih =>
    obtain ⟨b, s', hadv⟩ := Prog.advance_call (faults.headD false) op k s
    obtain ⟨fs, log', hfs⟩ := ih b s' (log ++ [⟨⟨op, b⟩, 0, i, s⟩]) faults.tail
    refine ⟨faults.headD false :: fs, log', ?_⟩
    have hrest : (Prog.call op k).runWith faults s = (k b).runWith faults.tail s' := by
      rw [← (Prog.advance_some hadv).runWith faults.tail, Prog.runWith_call, Prog.runWith_call]
      rfl
    have hstep : step body env ⟨s, [⟨i, .call op k⟩], log⟩ (.call 0 (faults.headD false)) =
        some ⟨s', [⟨i, k b⟩], log ++ [⟨⟨op, b⟩, 0, i, s⟩]⟩ := by
      show ((Prog.call op k).advance (faults.headD false) s).bind _ = _
      rw [hadv]
      rfl
    rw [hrest, ← hfs]
    exact Runs.exec_cons.trans (by rw [hstep]; rfl)

end Pool

/-! ## What was so at each call -/

section Logs

variable {Op : Type → Type u} {σ ι : Type} {κ : Type v}

/-- Each element is as `K` says after those before it. -/
def Always {ε : Type v} (K : List ε → ε → Prop) (l : List ε) : Prop :=
  ∀ pre e post, l = pre ++ e :: post → K pre e

variable {ε : Type v} {K : List ε → ε → Prop} {l : List ε} {e : ε}

theorem always_nil : Always K [] := by
  intro pre e post h
  cases pre <;> cases h

theorem Always.snoc (h : Always K l) (he : K l e) : Always K (l ++ [e]) := by
  intro pre e' post heq
  rcases List.eq_nil_or_concat post with rfl | ⟨post, e'', rfl⟩
  · obtain ⟨rfl, hlast⟩ := List.append_inj' heq rfl
    cases hlast
    exact he
  · have hsplit : l ++ [e] = (pre ++ e' :: post) ++ [e''] := by rw [heq]; simp
    exact h pre e' post (List.append_inj' hsplit rfl).1

theorem Always.of_mem (h : Always K l) (he : e ∈ l) : ∃ pre, pre <+: l ∧ K pre e := by
  obtain ⟨pre, post, rfl⟩ := List.append_of_mem he
  exact ⟨pre, List.prefix_append _ _, h pre e post rfl⟩

/-- The calls of thread `k` among these. -/
def trace (k : Nat) (log : List (Event Op σ ι)) : List (Exchange Op) :=
  (log.filter fun e => e.thread == k).map (·.toExchange)

theorem trace_snoc_self {log : List (Event Op σ ι)} {e : Event Op σ ι} :
    trace e.thread (log ++ [e]) = trace e.thread log ++ [e.toExchange] := by
  simp [trace]

theorem trace_snoc_other {k : Nat} {log : List (Event Op σ ι)} {e : Event Op σ ι} (h : e.thread ≠ k) :
    trace k (log ++ [e]) = trace k log := by
  simp [trace, h]

theorem trace_subset {k : Nat} {log log' : List (Event Op σ ι)} (h : log ⊆ log') : trace k log ⊆ trace k log' :=
  List.map_subset _ fun _ he => List.mem_filter.2 ((List.mem_filter.1 he).imp_left fun he => h he)

theorem mem_trace {k : Nat} {log : List (Event Op σ ι)} {c : Exchange Op} :
    c ∈ trace k log ↔ ∃ e ∈ log, e.thread = k ∧ e.toExchange = c := by
  simp [trace, and_assoc]

end Logs

/-! ## What a pool keeps -/

namespace Pool

variable {Op : Type → Type u} {α σ ι η : Type} {κ : Type v} [Calls Op σ]

section Keeping

/-- Each thread keeps the discipline of what it was started for from where its calls have led; every
call so far was allowed where it came, and answered from the state it found. -/
structure Keeping (D : ι → Discipline Op κ) (E : ι → α → κ → Prop) (q₀ : ι → κ)
    (p : Pool Op σ ι α) : Prop where
  kept : ∀ k (t : Thread Op ι α), p.threads[k]? = some t →
    t.prog.Keeps (D t.tag) (E t.tag) ((D t.tag).after (q₀ t.tag) (trace k p.log))
  own : ∀ e ∈ p.log, ∃ t : Thread Op ι α, p.threads[e.thread]? = some t ∧ t.tag = e.tag
  allowed : Always (fun pre e => (D e.tag).allows ((D e.tag).after (q₀ e.tag) (trace e.thread pre)) e.op) p.log
  answered : ∀ e ∈ p.log, (Calls.exec e.op e.found).1 = e.answer ∨ Calls.fault e.op = some e.answer

variable {D : ι → Discipline Op κ} {E : ι → α → κ → Prop} {q₀ : ι → κ} {body : ι → Prog Op α}
  {env : η → σ → Option σ} {p p' : Pool Op σ ι α}

theorem keeping_fresh (s : σ) : Keeping D E q₀ (fresh s : Pool Op σ ι α) :=
  ⟨nofun, nofun, always_nil, nofun⟩

/-- Nothing is in the log of a thread that has not been started. -/
theorem Keeping.trace_unstarted (h : Keeping D E q₀ p) : trace p.threads.length p.log = [] := by
  refine List.eq_nil_iff_forall_not_mem.2 fun c hc => ?_
  obtain ⟨e, he, hk, -⟩ := mem_trace.1 hc
  obtain ⟨t, ht, -⟩ := h.own e he
  rw [hk, List.getElem?_eq_none (Nat.le_refl _)] at ht
  cases ht

theorem Keeping.step (hbody : ∀ i, (body i).Keeps (D i) (E i) (q₀ i)) (h : Keeping D E q₀ p) {m : Move ι η}
    (hs : step body env p m = some p') : Keeping D E q₀ p' := by
  cases m with
  | start i =>
    cases hs
    refine ⟨fun k t ht => ?_, fun e he => ?_, h.allowed, h.answered⟩
    · dsimp only at ht ⊢
      -- the thread that starts is the last, and has made no call
      rcases Nat.lt_or_ge k p.threads.length with hlt | hge
      · rw [List.getElem?_append_left hlt] at ht
        exact h.kept k t ht
      · rw [List.getElem?_append_right hge, List.getElem?_singleton] at ht
        split at ht
        · rename_i hk
          cases ht
          obtain rfl : k = p.threads.length := by omega
          rw [h.trace_unstarted]
          exact hbody i
        · cases ht
    · obtain ⟨t, ht, htag⟩ := h.own e he
      exact ⟨t, by rw [List.getElem?_append_left (List.getElem?_eq_some_iff.1 ht).1]; exact ht, htag⟩
  | call k fails =>
    obtain ⟨t, c, prog, ht, hadv, hthreads, hlog⟩ := step_call hs
    obtain ⟨hallow, hrest⟩ := hadv.keeps (h.kept k t ht)
    have hlt := (List.getElem?_eq_some_iff.1 ht).1
    refine ⟨fun k' t' ht' => ?_, fun e he => ?_, ?_, fun e he => ?_⟩
    · rw [hthreads] at ht'
      rw [hlog]
      -- only the trace of the thread that called grows
      by_cases hk : k = k'
      · subst hk
        rw [List.getElem?_set_self hlt] at ht'
        cases ht'
        rw [show trace k (p.log ++ [⟨c, k, t.tag, p.state⟩]) = trace k p.log ++ [c] from
          trace_snoc_self (e := ⟨c, k, t.tag, p.state⟩), Discipline.after, List.foldl_append]
        exact hrest
      · rw [List.getElem?_set_ne hk] at ht'
        rw [trace_snoc_other hk]
        exact h.kept k' t' ht'
    · rw [hlog] at he
      rw [hthreads]
      rcases List.mem_append.1 he with he | he
      · obtain ⟨t', ht', htag⟩ := h.own e he
        by_cases hk : k = e.thread
        · subst hk
          rw [ht] at ht'
          cases ht'
          exact ⟨_, List.getElem?_set_self hlt, htag⟩
        · exact ⟨t', by rw [List.getElem?_set_ne hk]; exact ht', htag⟩
      · cases List.mem_singleton.1 he
        exact ⟨_, List.getElem?_set_self hlt, rfl⟩
    · rw [hlog]
      exact h.allowed.snoc hallow
    · rw [hlog] at he
      rcases List.mem_append.1 he with he | he
      · exact h.answered e he
      · cases List.mem_singleton.1 he
        exact hadv.effect.imp (congrArg Prod.fst) And.left
  | env e =>
    obtain ⟨s, -, rfl⟩ := step_env hs
    exact ⟨h.kept, h.own, h.allowed, h.answered⟩

end Keeping

end Pool

end Effect
