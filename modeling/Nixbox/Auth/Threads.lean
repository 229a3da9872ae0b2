/-
The login with its requests side by side: each request is a thread that makes its calls one by one,
between those of the others, as time goes by.
-/
import Nixbox.Auth.Order

namespace Nixbox.Auth

open Effect Prog

/-- A request under way. -/
abbrev Thread := Effect.Thread Op Request Response

/-- A call that a request has made. -/
abbrev Event := Effect.Event Op State Request

/-- The server with its requests side by side. -/
abbrev Pool := Effect.Pool Op State Request Response

/-- What happens next: a request comes in, thread `k` makes its next call, or some time goes by. -/
abbrev Move := Effect.Move Request Nat

/-- Time goes by. -/
def wait (d : Nat) (s : State) : Option State := some { s with time := s.time + d }

/-- One step of the server: a request comes in, one makes its next call, or time goes by. -/
def step (srv : Server) : Pool → Move → Option Pool := Effect.Pool.step (serve srv) wait

/-- So many steps. -/
def run (srv : Server) : Pool → List Move → Option Pool := Effect.Pool.run (serve srv) wait

/-- The threads make their calls where they are due. -/
def Ordered (srv : Server) (p : Pool) : Prop := p.Keeping (order srv) (fun _ => Ended) (fun _ => [])

/-- Among the calls of thread `k` is `op`, answered `b`. -/
def Did {β : Type} (log : List Event) (k : Nat) (op : Op β) (b : β) : Prop := Called (trace k log) op b

section Steps

variable {srv : Server} {p p' : Pool} {log log' : List Event} {k : Nat} {β : Type} {op : Op β} {b : β}

theorem Ordered.step {m : Move} (h : Ordered srv p) (hs : step srv p m = some p') : Ordered srv p' :=
  Pool.Keeping.step (serve_order srv) h hs

/-- What was due at a call that was made. -/
theorem Ordered.due_of_mem {e : Event} (h : Ordered srv p) (he : e ∈ p.log) :
    ∃ pre, pre <+: p.log ∧ Due srv e.tag (trace e.thread pre) e.op := by
  obtain ⟨pre, hpre, hallow⟩ := h.allowed.of_mem he
  rw [order_after] at hallow
  exact ⟨pre, hpre, hallow.1⟩

/-- What is due at a call about to be made. -/
theorem Ordered.due {t : Thread} {fails : Bool} {c : Exchange Op} {prog : Prog Op Response} {s' : State}
    (h : Ordered srv p) (ht : p.threads[k]? = some t) (hadv : Advanced fails t.prog p.state c prog s') :
    Due srv t.tag (trace k p.log) c.op := by
  have hkept := h.kept k t ht
  rw [order_after] at hkept
  exact (hadv.keeps hkept).1.1

theorem did_iff : Did log k op b ↔ ∃ e ∈ log, e.thread = k ∧ e.toExchange = ⟨op, b⟩ := mem_trace

theorem Did.mono (h : Did log k op b) (hl : log ⊆ log') : Did log' k op b := trace_subset hl h

theorem did_snoc {e : Event} :
    Did (log ++ [e]) k op b ↔ Did log k op b ∨ (e.thread = k ∧ e.toExchange = ⟨op, b⟩) := by
  simp only [did_iff, List.mem_append, List.mem_singleton, or_and_right, exists_or, exists_eq_left]

end Steps

end Nixbox.Auth
