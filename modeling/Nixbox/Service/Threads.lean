/-
The service with its requests side by side: each request is a thread that makes its calls one by
one, between those of the others and the steps of the job in flight.
-/
import Nixbox.Lib.Threads
import Nixbox.Service.System

namespace Nixbox

open Effect Store Server

/-- A request under way. -/
abbrev Thread := Effect.Thread Op Request Response

/-- The service with its requests side by side. -/
abbrev Pool := Effect.Pool Op State Request Response

/-- What happens next: a request comes in, thread `k` makes its next call, or the job in flight takes
a step. -/
abbrev Move := Effect.Move Request Jobs.Input

/-- The calls of thread `k`, none of which fails. -/
def calls (k n : Nat) : List Move := List.replicate n (.call k false)

namespace Service

/-- The service before its first request. -/
def fresh (h : Host) : Pool := .fresh (State.fresh h)

/-- One step of the service. -/
def step : Pool → Move → Option Pool := Effect.Pool.step serve Jobs.step

/-- So many steps. -/
def run : Pool → List Move → Option Pool := Effect.Pool.run serve Jobs.step

/-- A request that meets no other is handled as a whole. -/
theorem alone (s : State) (r : Request) (faults : List Bool) :
    ∃ (fs : List Bool) (log : List (Effect.Event Op State Request)),
      run ⟨s, [⟨r, serve r⟩], []⟩ (fs.map (.call 0)) =
        some ⟨s.handle r faults, [⟨r, .ret (s.answer r faults)⟩], log⟩ :=
  Effect.Pool.alone r (serve r) s [] faults

end Service

end Nixbox
