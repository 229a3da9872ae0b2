/-
The shell in the browser: two goroutines that pump bytes between a WebSocket and a PTY, next to the browser and the
shell. Whatever order their steps come in, what was typed reaches the shell in order and what it printed reaches the
browser in order, and nothing moves once the handler has returned.
-/
import Nixbox.Lib.Runs

namespace Nixbox.Server.Terminal

/-! ## The session -/

/-- A control message, of a terminal's size. -/
structure TermResize where
  rows : UInt16
  cols : UInt16
  deriving DecidableEq, Repr

/-- A frame of the browser: bytes, or a text with what `json.Unmarshal` makes of it. -/
inductive Frame
  | binary (data : List UInt8)
  | text (m : Option TermResize)
  deriving DecidableEq, Repr

/-- A call of the handler on the PTY. -/
inductive TtyCall
  | write (data : List UInt8)
  | setsize (m : TermResize)
  deriving DecidableEq, Repr

/-- Where the goroutine stands that reads the PTY: at `tty.Read`, or at `c.Write` with what was read and whether
the reading failed. -/
inductive Pump
  | reading
  | writing (buf : List UInt8) (failed : Bool)
  | stopped
  deriving DecidableEq, Repr

/-- Where the handler stands: at `c.Read`, at what it does with a frame, or at one of the calls it deferred, the
last of them first. -/
inductive Loop
  | reading
  | got (f : Frame)
  | wait
  | closeTty
  | cancel
  | closeNow
  | returned
  deriving DecidableEq, Repr

/-- A session once the socket is accepted and the shell started. Of the browser: what it `sent`, what of it waits to be
read, whether it is still there, and the messages it `received`. Of the shell: what it `printed`, what of it waits to be
read, what was `typed` to it, whether it is alive, and whether it or a child of it `holds` the other end of the PTY. -/
structure Session where
  sent : List Frame
  inbox : List Frame
  there : Bool
  received : List (List UInt8)
  printed : List UInt8
  pending : List UInt8
  typed : List UInt8
  alive : Bool
  holds : Bool
  calls : List TtyCall
  ttyOpen : Bool
  socketOpen : Bool
  cancelled : Bool
  pump : Pump
  loop : Loop
  deriving DecidableEq, Repr

/-- The socket is accepted and the shell has started. -/
def Session.opened : Session where
  sent := []
  inbox := []
  there := true
  received := []
  printed := []
  pending := []
  typed := []
  alive := true
  holds := true
  calls := []
  ttyOpen := true
  socketOpen := true
  cancelled := false
  pump := .reading
  loop := .reading

/-! ## Steps -/

/-- What happens next. A call answers an error if it `fails`; of a write that fails `n` bytes were written. -/
inductive Event
  | sends (f : Frame)
  | leaves
  | prints (bytes : List UInt8)
  | exits
  | hangsUp
  | killed
  | ttyRead (n : Nat) (fails : Bool)
  | socketWrite (fails : Bool)
  | socketRead (fails : Bool)
  | handles (n : Nat) (fails : Bool)
  | deferred
  deriving DecidableEq, Repr

/-- `make([]byte, 32*1024)`. -/
def bufSize : Nat := 32 * 1024

namespace Session

variable (s : Session)

/-- The goroutine that reads the PTY cancels the context and is done. -/
def stop : Session := { s with cancelled := true, pump := .stopped }

/-- `tty.Read` returns what it has read and whether with an error. One that returns nothing has failed. -/
def ttyRead (n : Nat) (fails : Bool) : Option Session :=
  if s.pump = .reading ∧ n ≤ s.pending.length ∧ n ≤ bufSize ∧ (n = 0 → fails = true) ∧
    (s.ttyOpen = false → n = 0) then
    if n = 0 then some s.stop
    else some { s with pending := s.pending.drop n, pump := .writing (s.pending.take n) fails }
  else none

/-- `c.Write` of what was read. -/
def socketWrite (fails : Bool) : Option Session :=
  match s.pump with
  | .writing buf failed =>
    if fails then some s.stop
    else if s.socketOpen then
      let s := { s with received := s.received ++ [buf] }
      some (if failed then s.stop else { s with pump := .reading })
    else none
  | _ => none

/-- `c.Read`; any error ends the loop. -/
def socketRead (fails : Bool) : Option Session :=
  match s.loop, s.inbox with
  | .reading, f :: rest =>
    if fails then some { s with loop := .wait }
    else if s.socketOpen then some { s with inbox := rest, loop := .got f } else none
  | .reading, [] => if fails then some { s with loop := .wait } else none
  | _, _ => none

/-- What the loop does with a frame: keystrokes are written to the PTY, and a size is set that is one. -/
def handles (n : Nat) (fails : Bool) : Option Session :=
  match s.loop with
  | .got (.binary data) =>
    let s := { s with calls := s.calls ++ [TtyCall.write data] }
    if fails then some { s with typed := s.typed ++ data.take n, loop := .wait }
    else some { s with typed := s.typed ++ data, loop := .reading }
  | .got (.text (some m)) =>
    some { s with
      calls := if m.rows > 0 ∧ m.cols > 0 then s.calls ++ [TtyCall.setsize m] else s.calls
      loop := .reading }
  | .got (.text none) => some { s with loop := .reading }
  | _ => none

/-- The deferred calls: `cmd.Wait`, which waits for the shell, `tty.Close`, `cancel` and `c.CloseNow`. -/
def deferred : Option Session :=
  match s.loop with
  | .wait => if s.alive then none else some { s with loop := .closeTty }
  | .closeTty => some { s with ttyOpen := false, loop := .cancel }
  | .cancel => some { s with cancelled := true, loop := .closeNow }
  | .closeNow => some { s with socketOpen := false, loop := .returned }
  | _ => none

/-- The context kills the shell once it is cancelled, which is not before the handler or its goroutine does it: a
hijacked request's context lasts until its handler returns. -/
def step : Event → Option Session
  | .sends f => if s.there then some { s with sent := s.sent ++ [f], inbox := s.inbox ++ [f] } else none
  | .leaves => if s.there then some { s with there := false } else none
  | .prints bytes =>
    if s.holds then some { s with printed := s.printed ++ bytes, pending := s.pending ++ bytes } else none
  | .exits => if s.alive then some { s with alive := false } else none
  | .hangsUp => if s.holds then some { s with holds := false } else none
  | .killed => if s.alive && s.cancelled then some { s with alive := false } else none
  | .ttyRead n fails => s.ttyRead n fails
  | .socketWrite fails => s.socketWrite fails
  | .socketRead fails => s.socketRead fails
  | .handles n fails => s.handles n fails
  | .deferred => s.deferred

/-- So many steps. -/
def run : Session → List Event → Option Session := Runs.exec step

end Session

/-! ## What a step can do -/

/-- What a frame asks of the PTY. -/
def Frame.call : Frame → Option TtyCall
  | .binary data => some (.write data)
  | .text (some m) => if m.rows > 0 ∧ m.cols > 0 then some (.setsize m) else none
  | .text none => none

namespace Session

/-- A step of the session and what it leaves. -/
inductive Stepped (s : Session) : Event → Session → Prop
  | sent (f : Frame) : Stepped s (.sends f) { s with sent := s.sent ++ [f], inbox := s.inbox ++ [f] }
  | left : Stepped s .leaves { s with there := false }
  | printed (bytes : List UInt8) (h : s.holds = true) :
    Stepped s (.prints bytes) { s with printed := s.printed ++ bytes, pending := s.pending ++ bytes }
  | exited : Stepped s .exits { s with alive := false }
  | hungUp : Stepped s .hangsUp { s with holds := false }
  | killed (h : s.cancelled = true) : Stepped s .killed { s with alive := false }
  | nothingRead (hp : s.pump = .reading) : Stepped s (.ttyRead 0 true) s.stop
  | read {n : Nat} {fails : Bool} (hp : s.pump = .reading) (hn : n ≠ 0) (hlen : n ≤ s.pending.length)
    (hbuf : n ≤ bufSize) (htty : s.ttyOpen = true) : Stepped s (.ttyRead n fails)
      { s with pending := s.pending.drop n, pump := .writing (s.pending.take n) fails }
  | notWritten {buf : List UInt8} {failed : Bool} (hp : s.pump = .writing buf failed) :
    Stepped s (.socketWrite true) s.stop
  | written {buf : List UInt8} (hp : s.pump = .writing buf false) (ho : s.socketOpen = true) :
    Stepped s (.socketWrite false) { s with received := s.received ++ [buf], pump := .reading }
  | lastWritten {buf : List UInt8} (hp : s.pump = .writing buf true) (ho : s.socketOpen = true) :
    Stepped s (.socketWrite false) ({ s with received := s.received ++ [buf] } : Session).stop
  | ended (hl : s.loop = .reading) : Stepped s (.socketRead true) { s with loop := .wait }
  | taken {f : Frame} {rest : List Frame} (hl : s.loop = .reading) (hi : s.inbox = f :: rest) :
    Stepped s (.socketRead false) { s with inbox := rest, loop := .got f }
  | typed {data : List UInt8} {n : Nat} (hl : s.loop = .got (.binary data)) : Stepped s (.handles n false)
      { s with calls := s.calls ++ [TtyCall.write data], typed := s.typed ++ data, loop := .reading }
  | notTyped {data : List UInt8} {n : Nat} (hl : s.loop = .got (.binary data)) : Stepped s (.handles n true)
      { s with calls := s.calls ++ [TtyCall.write data], typed := s.typed ++ data.take n, loop := .wait }
  | told {m : Option TermResize} {n : Nat} {fails : Bool} (hl : s.loop = .got (.text m)) :
    Stepped s (.handles n fails) { s with calls := s.calls ++ (Frame.text m).call.toList, loop := .reading }
  | waited (hl : s.loop = .wait) (hd : s.alive = false) : Stepped s .deferred { s with loop := .closeTty }
  | ttyClosed (hl : s.loop = .closeTty) : Stepped s .deferred { s with ttyOpen := false, loop := .cancel }
  | contextCancelled (hl : s.loop = .cancel) : Stepped s .deferred { s with cancelled := true, loop := .closeNow }
  | socketClosed (hl : s.loop = .closeNow) : Stepped s .deferred { s with socketOpen := false, loop := .returned }

variable {s s' : Session} {e : Event}

theorem step_stepped (h : s.step e = some s') : s.Stepped e s' := by
  cases e with
  | sends f =>
    obtain ⟨-, ⟨⟩⟩ := Option.ite_none_right_eq_some.1 h
    exact .sent f
  | leaves =>
    obtain ⟨-, ⟨⟩⟩ := Option.ite_none_right_eq_some.1 h
    exact .left
  | prints bytes =>
    obtain ⟨hheld, ⟨⟩⟩ := Option.ite_none_right_eq_some.1 h
    exact .printed bytes hheld
  | exits =>
    obtain ⟨-, ⟨⟩⟩ := Option.ite_none_right_eq_some.1 h
    exact .exited
  | hangsUp =>
    obtain ⟨-, ⟨⟩⟩ := Option.ite_none_right_eq_some.1 h
    exact .hungUp
  | killed =>
    obtain ⟨hkill, ⟨⟩⟩ := Option.ite_none_right_eq_some.1 h
    exact .killed (Bool.and_eq_true_iff.1 hkill).2
  | ttyRead n fails =>
    simp only [step, ttyRead] at h
    obtain ⟨⟨hp, hlen, hbuf, hfails, htty⟩, hread⟩ := Option.ite_none_right_eq_some.1 h
    split at hread
    · rename_i hn
      cases hread
      rw [hfails hn, hn]
      exact .nothingRead hp
    · rename_i hn
      cases hread
      refine .read hp hn hlen hbuf ?_
      by_contra hclosed
      exact hn (htty (eq_false_of_ne_true hclosed))
  | socketWrite fails =>
    simp only [step, socketWrite] at h
    split at h
    · rename_i buf failed hp
      cases fails with
      | true =>
        cases h
        exact .notWritten hp
      | false =>
        rw [if_neg Bool.false_ne_true] at h
        obtain ⟨ho, h⟩ := Option.ite_none_right_eq_some.1 h
        cases failed with
        | true =>
          cases h
          exact .lastWritten hp ho
        | false =>
          cases h
          exact .written hp ho
    · cases h
  | socketRead fails =>
    simp only [step, socketRead] at h
    split at h
    · rename_i f rest hl hi
      cases fails with
      | true =>
        cases h
        exact .ended hl
      | false =>
        rw [if_neg Bool.false_ne_true] at h
        obtain ⟨-, ⟨⟩⟩ := Option.ite_none_right_eq_some.1 h
        exact .taken hl hi
    · rename_i hl hi
      obtain ⟨hfails, ⟨⟩⟩ := Option.ite_none_right_eq_some.1 h
      rw [hfails]
      exact .ended hl
    · cases h
  | handles n fails =>
    simp only [step, handles] at h
    split at h
    · rename_i data hl
      cases fails with
      | true =>
        cases h
        exact .notTyped hl
      | false =>
        cases h
        exact .typed hl
    · rename_i m hl
      have hcalls : (if m.rows > 0 ∧ m.cols > 0 then s.calls ++ [TtyCall.setsize m] else s.calls) =
          s.calls ++ (Frame.text (some m)).call.toList := by
        simp only [Frame.call]
        split
        · rfl
        · exact (List.append_nil _).symm
      rw [hcalls] at h
      cases h
      exact .told hl
    · rename_i hl
      rw [← List.append_nil s.calls] at h
      cases h
      exact .told hl
    · cases h
  | deferred =>
    simp only [step, deferred] at h
    split at h
    · rename_i hl
      split at h
      · cases h
      · rename_i hd
        cases h
        exact .waited hl (eq_false_of_ne_true hd)
    · rename_i hl
      cases h
      exact .ttyClosed hl
    · rename_i hl
      cases h
      exact .contextCancelled hl
    · rename_i hl
      cases h
      exact .socketClosed hl
    · cases h

end Session

/-! ## What is kept -/

/-- The keystrokes in a frame. -/
def Frame.keystrokes : Frame → List UInt8
  | .binary data => data
  | .text _ => []

/-- The frame the handler has read and not dealt with. -/
def Loop.hand : Loop → List Frame
  | .got f => [f]
  | _ => []

/-- What the goroutine has read and not written. -/
def Pump.hand : Pump → List UInt8
  | .writing buf _ => buf
  | _ => []

/-- How far the handler has come: it takes frames, or makes one deferred call after the other. -/
def Loop.stage : Loop → Nat
  | .reading | .got _ => 0
  | .wait => 1
  | .closeTty => 2
  | .cancel => 3
  | .closeNow => 4
  | .returned => 5

/-- A message of the shell's output: no longer than the buffer, and not empty. -/
def Message (bytes : List UInt8) : Prop := bytes ≠ [] ∧ bytes.length ≤ bufSize

namespace Session

/-- The handler has dealt with the frames `handled`. -/
structure Typed (s : Session) (handled : List Frame) : Prop where
  sent : s.sent = handled ++ (s.loop.hand ++ s.inbox)
  calls : s.calls = handled.filterMap Frame.call
  typed : s.typed <+: handled.flatMap Frame.keystrokes
  all : s.loop.stage = 0 → s.typed = handled.flatMap Frame.keystrokes

/-- What the shell printed is on its way to the browser. -/
structure Printed (s : Session) : Prop where
  messages : ∀ m ∈ s.received, Message m
  hand : ∀ buf failed, s.pump = .writing buf failed → Message buf
  order : s.received.flatten <+: s.printed
  all : s.pump ≠ .stopped → s.received.flatten ++ (s.pump.hand ++ s.pending) = s.printed

/-- How far the handler has come with the calls it deferred. -/
structure Closing (s : Session) : Prop where
  dead : 2 ≤ s.loop.stage → s.alive = false
  tty : s.ttyOpen = false ↔ 3 ≤ s.loop.stage
  context : s.cancelled = true → s.pump = .stopped ∨ 4 ≤ s.loop.stage
  socket : 5 ≤ s.loop.stage → s.socketOpen = false

section Steps

variable {s s' : Session} {e : Event} {handled : List Frame}

theorem typed_opened : opened.Typed [] := ⟨rfl, rfl, List.prefix_rfl, fun _ => rfl⟩

theorem printed_opened : opened.Printed := ⟨nofun, nofun, List.prefix_rfl, fun _ => rfl⟩

theorem closing_opened : opened.Closing := ⟨nofun, ⟨nofun, nofun⟩, nofun, nofun⟩

/-- Dealing with the frame at hand. -/
theorem Typed.handle (h : s.Typed handled) {f : Frame} (hl : s.loop = .got f) :
    s.sent = (handled ++ [f]) ++ s.inbox ∧ s.calls ++ f.call.toList = (handled ++ [f]).filterMap Frame.call ∧
      s.typed ++ f.keystrokes = (handled ++ [f]).flatMap Frame.keystrokes := by
  have hsent := h.sent
  rw [hl] at hsent
  refine ⟨?_, ?_, ?_⟩
  · rw [hsent, List.append_assoc]
    rfl
  · rw [h.calls, List.filterMap_append]
    cases hcall : f.call <;> simp [hcall]
  · rw [h.all (by rw [hl]; rfl), List.flatMap_append]
    simp

theorem typed_step (hst : s.Stepped e s') (h : s.Typed handled) : ∃ handled', s'.Typed handled' := by
  have hkept : ∀ loop : Loop, loop.hand = s.loop.hand → loop.stage ≠ 0 →
      ({ s with loop := loop } : Session).Typed handled :=
    fun loop hhand hstage => ⟨by rw [h.sent, ← hhand], h.calls, h.typed, fun hzero => absurd hzero hstage⟩
  cases hst with
  | sent f =>
    refine ⟨handled, ?_, h.calls, h.typed, h.all⟩
    show s.sent ++ [f] = handled ++ (s.loop.hand ++ (s.inbox ++ [f]))
    rw [h.sent]
    simp
  | @taken f rest hl hi =>
    refine ⟨handled, ?_, h.calls, h.typed, fun _ => h.all (by rw [hl]; rfl)⟩
    show s.sent = handled ++ ([f] ++ rest)
    rw [h.sent, hl, hi]
    rfl
  | ended hl => exact ⟨handled, hkept .wait (by rw [hl]; rfl) nofun⟩
  | typed hl =>
    obtain ⟨hsent, hcalls, htyped⟩ := h.handle hl
    exact ⟨_, hsent, hcalls, htyped ▸ List.prefix_rfl, fun _ => htyped⟩
  | @notTyped data n hl =>
    obtain ⟨hsent, hcalls, htyped⟩ := h.handle hl
    refine ⟨_, hsent, hcalls, ?_, nofun⟩
    -- a part of the keystrokes at hand, behind all before them
    rw [← htyped]
    exact List.prefix_append_right_inj _ |>.2 (List.take_prefix n data)
  | told hl =>
    obtain ⟨hsent, hcalls, htyped⟩ := h.handle hl
    have hsame : s.typed = _ := (List.append_nil _).symm.trans htyped
    exact ⟨_, hsent, hcalls, hsame ▸ List.prefix_rfl, fun _ => hsame⟩
  | waited hl | ttyClosed hl | contextCancelled hl | socketClosed hl =>
    have hhand : s.loop.hand = [] := by rw [hl]; rfl
    exact ⟨handled, by rw [h.sent, hhand]; rfl, h.calls, h.typed, nofun⟩
  | left | printed | exited | hungUp | killed | nothingRead | read | notWritten | written | lastWritten =>
    exact ⟨handled, h.sent, h.calls, h.typed, h.all⟩

/-- Delivering what is at hand. -/
theorem Printed.deliver (h : s.Printed) {buf : List UInt8} {failed : Bool} (hp : s.pump = .writing buf failed) :
    (s.received ++ [buf]).flatten ++ s.pending = s.printed ∧ ∀ m ∈ s.received ++ [buf], Message m := by
  have hall := h.all (by rw [hp]; exact nofun)
  rw [hp] at hall
  constructor
  · rw [← hall]
    simp [Pump.hand]
  · intro m hm
    rcases List.mem_append.1 hm with hm | hm
    · exact h.messages m hm
    · rw [List.mem_singleton.1 hm]
      exact h.hand _ _ hp

theorem printed_step (hst : s.Stepped e s') (h : s.Printed) : s'.Printed := by
  cases hst with
  | printed bytes _ =>
    refine ⟨h.messages, h.hand, h.order.trans (List.prefix_append _ _), fun hp => ?_⟩
    show s.received.flatten ++ (s.pump.hand ++ (s.pending ++ bytes)) = s.printed ++ bytes
    rw [← h.all hp]
    simp
  | nothingRead | notWritten => exact ⟨h.messages, nofun, h.order, fun hp => absurd rfl hp⟩
  | @read n fails hp hn hlen hbuf _ =>
    have hall := h.all (by rw [hp]; exact nofun)
    rw [hp] at hall
    refine ⟨h.messages, fun buf failed hw => ?_, h.order, fun _ => ?_⟩
    · cases hw
      refine ⟨fun hnil => hn ?_, ?_⟩
      · rw [← List.length_take_of_le hlen, hnil]
        rfl
      · rw [List.length_take_of_le hlen]
        exact hbuf
    · show s.received.flatten ++ (s.pending.take n ++ s.pending.drop n) = s.printed
      rw [List.take_append_drop]
      exact hall
  | written hp _ =>
    obtain ⟨hflat, hmessages⟩ := h.deliver hp
    exact ⟨hmessages, nofun, ⟨s.pending, hflat⟩, fun _ => hflat⟩
  | lastWritten hp _ =>
    obtain ⟨hflat, hmessages⟩ := h.deliver hp
    exact ⟨hmessages, nofun, ⟨s.pending, hflat⟩, fun hp => absurd rfl hp⟩
  | sent | left | exited | hungUp | killed | ended | taken | typed | notTyped | told | waited | ttyClosed
  | contextCancelled | socketClosed => exact ⟨h.messages, h.hand, h.order, h.all⟩

theorem closing_step (hst : s.Stepped e s') (h : s.Closing) : s'.Closing := by
  have htty := h.tty
  have hcontext := h.context
  cases hst with
  | exited | killed => exact ⟨fun _ => rfl, h.tty, h.context, h.socket⟩
  | sent | left | printed | hungUp => exact ⟨h.dead, h.tty, h.context, h.socket⟩
  | nothingRead | notWritten | lastWritten => exact ⟨h.dead, h.tty, fun _ => .inl rfl, h.socket⟩
  | read hp | written hp =>
    rw [hp] at hcontext
    exact ⟨h.dead, h.tty, fun hc => .inr ((hcontext hc).resolve_left nofun), h.socket⟩
  | ended hl | taken hl | typed hl | notTyped hl | told hl =>
    -- nothing deferred has been called yet
    simp only [hl, Loop.stage] at htty hcontext
    refine ⟨?_, ?_, ?_, ?_⟩ <;> simp [Loop.stage, htty]
    simpa using hcontext
  | waited hl hd =>
    simp only [hl, Loop.stage] at htty hcontext
    refine ⟨fun _ => hd, ?_, ?_, ?_⟩ <;> simp [Loop.stage, htty]
    simpa using hcontext
  | ttyClosed hl =>
    simp only [hl, Loop.stage] at hcontext
    refine ⟨fun _ => h.dead (by simp [hl, Loop.stage]), ?_, ?_, ?_⟩ <;> simp [Loop.stage]
    simpa using hcontext
  | contextCancelled hl | socketClosed hl =>
    simp only [hl, Loop.stage] at htty
    refine ⟨fun _ => h.dead (by simp [hl, Loop.stage]), ?_, ?_, ?_⟩ <;> simp [Loop.stage, htty]

/-- Once the handler has returned it does nothing more, and nothing is sent. -/
theorem returned_step (hst : s.Stepped e s') (h : s.Closing) (hl : s.loop = .returned) :
    s'.loop = .returned ∧ s'.calls = s.calls ∧ s'.typed = s.typed ∧ s'.received = s.received := by
  have hsocket := h.socket (by simp [hl, Loop.stage])
  cases hst with
  | written _ ho | lastWritten _ ho => rw [hsocket] at ho; cases ho
  | ended hl' | taken hl' | typed hl' | notTyped hl' | told hl' | waited hl' | ttyClosed hl' | contextCancelled hl'
  | socketClosed hl' => rw [hl] at hl'; cases hl'
  | _ => exact ⟨hl, rfl, rfl, rfl⟩

end Steps

/-! ## Every run -/

section Runs

variable {s s' : Session} {e : Event} {es : List Event}

/-- What holds throughout. -/
structure Good (s : Session) : Prop where
  typed : ∃ handled, s.Typed handled
  printed : s.Printed
  closing : s.Closing

theorem good_opened : opened.Good := ⟨⟨[], typed_opened⟩, printed_opened, closing_opened⟩

theorem good_step (h : s.Good) (hs : s.step e = some s') : s'.Good := by
  obtain ⟨handled, htyped⟩ := h.typed
  have hst := step_stepped hs
  exact ⟨typed_step hst htyped, printed_step hst h.printed, closing_step hst h.closing⟩

theorem good_run (h : s.Good) (hrun : s.run es = some s') : s'.Good :=
  Runs.exec_inv_all (I := Good) (fun _ _ _ hI hs => good_step hI hs) h hrun

theorem returned_run (h : s.Good) (hl : s.loop = .returned) (hrun : s.run es = some s') :
    s'.calls = s.calls ∧ s'.typed = s.typed ∧ s'.received = s.received := by
  induction es generalizing s with
  | nil =>
    cases hrun
    exact ⟨rfl, rfl, rfl⟩
  | cons e es ih =>
    obtain ⟨t, ht, hrun⟩ := Runs.exec_cons_some.1 hrun
    obtain ⟨hret, hcalls, htyped, hreceived⟩ := returned_step (step_stepped ht) h.closing hl
    obtain ⟨hcalls', htyped', hreceived'⟩ := ih (good_step h ht) hret hrun
    exact ⟨hcalls'.trans hcalls, htyped'.trans htyped, hreceived'.trans hreceived⟩

/-- In every run, whatever order the steps of the handler, its goroutine, the shell and the browser come in and
whichever calls fail: the calls made on the PTY are those the first frames of the browser ask for, in order, and
what the shell got of the keystrokes is the first part of theirs, all of it while the handler takes frames; what the
browser got is the first part of what the shell printed, in messages of the buffer's size at most. Once the handler has
returned, the shell is dead, and nothing more reaches it or the browser. -/
theorem terminal_bridged (hrun : opened.run es = some s) :
    (∃ handled rest, s.sent = handled ++ rest ∧ s.calls = handled.filterMap Frame.call ∧
      s.typed <+: handled.flatMap Frame.keystrokes ∧
      (s.loop.stage = 0 → s.typed = handled.flatMap Frame.keystrokes)) ∧
    (s.received.flatten <+: s.printed ∧ ∀ m ∈ s.received, Message m) ∧
    (s.loop = .returned → s.alive = false ∧ ∀ es' s', s.run es' = some s' →
      s'.calls = s.calls ∧ s'.typed = s.typed ∧ s'.received = s.received) := by
  have hgood := good_run good_opened hrun
  obtain ⟨handled, htyped⟩ := hgood.typed
  refine ⟨⟨handled, _, htyped.sent, htyped.calls, htyped.typed, htyped.all⟩,
    ⟨hgood.printed.order, hgood.printed.messages⟩, fun hl => ⟨?_, fun es' s' hrun' => ?_⟩⟩
  · exact hgood.closing.dead (by simp [hl, Loop.stage])
  · exact returned_run hgood hl hrun'

/-- A size is set, `ls` is typed, and the browser leaves. -/
def typedAndLeft : List Event :=
  [.sends (.text (some ⟨24, 80⟩)), .socketRead false, .handles 0 false,
    .sends (.binary [108, 115]), .socketRead false, .handles 0 false, .leaves, .socketRead true]

/-- The browser has left, and the handler waits for the shell. -/
def abandoned : Session := (opened.run typedAndLeft).get (by decide +kernel)

theorem terminal_bridged_abandoned :
    (∃ handled rest, abandoned.sent = handled ++ rest ∧ abandoned.calls = handled.filterMap Frame.call ∧
      abandoned.typed <+: handled.flatMap Frame.keystrokes ∧
      (abandoned.loop.stage = 0 → abandoned.typed = handled.flatMap Frame.keystrokes)) ∧
    (abandoned.received.flatten <+: abandoned.printed ∧ ∀ m ∈ abandoned.received, Message m) ∧
    (abandoned.loop = .returned → abandoned.alive = false ∧ ∀ es' s', abandoned.run es' = some s' →
      s'.calls = abandoned.calls ∧ s'.typed = abandoned.typed ∧ s'.received = abandoned.received) :=
  terminal_bridged (Option.some_get (by decide +kernel : (opened.run typedAndLeft).isSome = true)).symm

end Runs

/-! ## The end of a session -/

section Ends

variable {s s' : Session} {e : Event} {es : List Event}

/-- The browser stays, and no call fails but the reading of a PTY that nothing holds and nothing is left of, and
that of the socket once the context is cancelled. -/
def Undisturbed (s : Session) : Event → Prop
  | .leaves => False
  | .ttyRead n fails => fails = true → s.holds = false ∧ n = s.pending.length
  | .socketWrite fails => fails = false
  | .socketRead fails => fails = true → s.cancelled = true
  | .handles _ fails => fails = false
  | _ => True

instance (s : Session) : ∀ e, Decidable (s.Undisturbed e)
  | .leaves => isFalse id
  | .ttyRead n fails => inferInstanceAs (Decidable (fails = true → s.holds = false ∧ n = s.pending.length))
  | .socketWrite fails => inferInstanceAs (Decidable (fails = false))
  | .socketRead fails => inferInstanceAs (Decidable (fails = true → s.cancelled = true))
  | .handles _ fails => inferInstanceAs (Decidable (fails = false))
  | .sends _ | .prints _ | .exits | .hangsUp | .killed | .deferred => isTrue trivial

/-- The handler goes on until the goroutine has delivered everything. -/
structure Draining (s : Session) : Prop where
  context : s.pump ≠ .stopped → s.cancelled = false ∧ s.loop.stage = 0
  last : ∀ buf, s.pump = .writing buf true → s.holds = false ∧ s.pending = []
  all : s.pump = .stopped → s.holds = false ∧ s.received.flatten = s.printed

theorem draining_opened : opened.Draining := ⟨fun _ => ⟨rfl, rfl⟩, nofun, nofun⟩

theorem draining_step (hst : s.Stepped e s') (hu : s.Undisturbed e) (hp : s.Printed) (h : s.Draining) :
    s'.Draining := by
  cases hst with
  | left => exact absurd hu id
  | printed bytes hholds =>
    -- what holds the PTY prints, so the goroutine is not done
    have hne : s.pump ≠ .stopped := fun hstop => by
      rw [(h.all hstop).1] at hholds
      cases hholds
    refine ⟨h.context, fun buf hw => ?_, fun hstop => absurd hstop hne⟩
    rw [(h.last buf hw).1] at hholds
    cases hholds
  | hungUp =>
    exact ⟨h.context, fun buf hw => ⟨rfl, (h.last buf hw).2⟩, fun hstop => ⟨rfl, (h.all hstop).2⟩⟩
  | nothingRead hpump =>
    obtain ⟨hholds, hlen⟩ := hu rfl
    have hall := hp.all (by rw [hpump]; exact nofun)
    rw [hpump, List.eq_nil_of_length_eq_zero hlen.symm] at hall
    exact ⟨fun hne => absurd rfl hne, nofun, fun _ => ⟨hholds, (List.append_nil _).symm.trans hall⟩⟩
  | read hpump =>
    have hcontext := h.context (by rw [hpump]; exact nofun)
    refine ⟨fun _ => hcontext, fun buf hw => ?_, nofun⟩
    cases hw
    obtain ⟨hholds, rfl⟩ := hu rfl
    exact ⟨hholds, List.drop_length⟩
  | notWritten => cases hu
  | written hpump =>
    exact ⟨fun _ => h.context (by rw [hpump]; exact nofun), nofun, nofun⟩
  | lastWritten hpump =>
    obtain ⟨hholds, hpending⟩ := h.last _ hpump
    have hflat := (hp.deliver hpump).1
    rw [hpending, List.append_nil] at hflat
    exact ⟨fun hne => absurd rfl hne, nofun, fun _ => ⟨hholds, hflat⟩⟩
  | ended hl =>
    -- the context is cancelled, so the goroutine is done
    refine ⟨fun hne => ?_, h.last, h.all⟩
    have hcancelled := (h.context hne).1
    rw [hu rfl] at hcancelled
    cases hcancelled
  | notTyped => cases hu
  | taken hl | typed hl | told hl => exact ⟨fun hne => ⟨(h.context hne).1, rfl⟩, h.last, h.all⟩
  | waited hl | ttyClosed hl | contextCancelled hl | socketClosed hl =>
    refine ⟨fun hne => ?_, h.last, h.all⟩
    have hstage := (h.context hne).2
    rw [hl] at hstage
    cases hstage
  | sent | exited | killed => exact ⟨h.context, h.last, h.all⟩

theorem draining_run (hu : Runs.Along step Undisturbed opened es) (hrun : opened.run es = some s) : s.Draining :=
  (Runs.exec_inv (I := fun s => s.Good ∧ s.Draining)
    (fun _ _ _ hu h hs => ⟨good_step h.1 hs, draining_step (step_stepped hs) hu h.1.printed h.2⟩) hu
    ⟨good_opened, draining_opened⟩ hrun).2

/-- What the shell prints is not lost at the end: if the browser stays and no call fails for another reason, then
everything the shell ever printed has been delivered when the goroutine or the handler is done. -/
theorem terminal_drained (hu : Runs.Along step Undisturbed opened es) (hrun : opened.run es = some s)
    (hdone : s.pump = .stopped ∨ s.loop.stage ≠ 0) : s.received.flatten = s.printed := by
  have hdraining := draining_run hu hrun
  refine (hdraining.all (hdone.elim id fun hstage => ?_)).2
  by_contra hne
  exact hstage (hdraining.context hne).2

/-- The shell prints two lines and exits. -/
def printedAndLeft : List Event :=
  [.prints [104, 105, 10], .ttyRead 3 false, .prints [10], .exits, .hangsUp, .socketWrite false, .ttyRead 1 true,
    .socketWrite false, .socketRead true]

/-- All of the shell's output has been sent. -/
def drained : Session := (opened.run printedAndLeft).get (by decide +kernel)

theorem terminal_drained_printed : drained.received.flatten = drained.printed := by
  have hu : Runs.Along step Undisturbed opened printedAndLeft := by decide +kernel
  exact terminal_drained hu (Option.some_get (by decide +kernel : (opened.run printedAndLeft).isSome = true)).symm
    (.inl (by decide +kernel))

/-- Nothing comes from the shell. -/
def Silent (s : Session) : Event → Prop
  | .prints bytes => bytes = []
  | .exits | .hangsUp => False
  | .ttyRead _ fails => fails = true → s.holds = false ∨ s.ttyOpen = false
  | _ => True

/-- The handler waits for a shell that waits for input. -/
structure Lingering (s : Session) : Prop where
  loop : s.loop = .wait
  pump : s.pump = .reading
  pending : s.pending = []
  alive : s.alive = true
  holds : s.holds = true
  context : s.cancelled = false
  tty : s.ttyOpen = true

theorem lingering_step (hst : s.Stepped e s') (hsilent : s.Silent e) (h : s.Lingering) : s'.Lingering := by
  cases hst with
  | sent | left => exact ⟨h.loop, h.pump, h.pending, h.alive, h.holds, h.context, h.tty⟩
  | printed bytes =>
    have hpending : s.pending ++ bytes = [] := by rw [h.pending, hsilent]; rfl
    exact ⟨h.loop, h.pump, hpending, h.alive, h.holds, h.context, h.tty⟩
  | exited | hungUp => exact absurd hsilent id
  | killed hc => exact absurd (h.context.symm.trans hc) nofun
  | nothingRead =>
    rcases hsilent rfl with hholds | htty
    · exact absurd (h.holds.symm.trans hholds) nofun
    · exact absurd (h.tty.symm.trans htty) nofun
  | read _ hn hlen =>
    rw [h.pending] at hlen
    exact absurd (Nat.le_zero.1 hlen) hn
  | notWritten hp | written hp | lastWritten hp => exact absurd (h.pump.symm.trans hp) nofun
  | waited _ hd => exact absurd (h.alive.symm.trans hd) nofun
  | ended hl | taken hl | typed hl | notTyped hl | told hl | ttyClosed hl | contextCancelled hl | socketClosed hl =>
    exact absurd (h.loop.symm.trans hl) nofun

/-- The steps that end a session whose shell says something the browser does not get. -/
def wound (bytes : List UInt8) : List Event :=
  [.prints bytes, .ttyRead (min bytes.length bufSize) false, .socketWrite true, .killed,
    .deferred, .deferred, .deferred, .deferred]

/-- A handler that has seen the browser leave, with nothing of the shell's output to be read: the shell is not killed
and the handler does not return for as long as the shell says nothing. Whatever it says, it can be killed then. -/
theorem terminal_lingers (hrun : opened.run es = some s) (hl : s.loop = .wait) (hp : s.pump = .reading)
    (hpending : s.pending = []) (halive : s.alive = true) (hholds : s.holds = true) :
    (∀ es' s', Runs.Along step Silent s es' → s.run es' = some s' → s'.alive = true ∧ s'.loop = .wait) ∧
      ∀ bytes, bytes ≠ [] → ∃ s', s.run (wound bytes) = some s' ∧ s'.loop = .returned := by
  have hclosing := (good_run good_opened hrun).closing
  have hcontext : s.cancelled = false := by
    by_contra hc
    have hstopped := hclosing.context (eq_true_of_ne_false hc)
    simp [hp, hl, Loop.stage] at hstopped
  have htty : s.ttyOpen = true := by
    by_contra hclosed
    have hstage := hclosing.tty.1 (eq_false_of_ne_true hclosed)
    simp [hl, Loop.stage] at hstage
  constructor
  · intro es' s' hsilent hrun'
    have hlingering : s'.Lingering :=
      Runs.exec_inv (I := Lingering) (fun _ _ _ hs h hstep => lingering_step (step_stepped hstep) hs h) hsilent
        ⟨hl, hp, hpending, halive, hholds, hcontext, htty⟩ hrun'
    exact ⟨hlingering.alive, hlingering.loop⟩
  · intro bytes hne
    have hread : min bytes.length bufSize ≠ 0 := by
      have hpos := List.length_pos_iff.2 hne
      unfold bufSize
      omega
    simp [run, wound, Runs.exec_cons, step, ttyRead, socketWrite, deferred, stop, hl, hp, hpending, halive, hholds,
      htty, hread, Nat.min_le_left, Nat.min_le_right]

theorem terminal_lingers_abandoned :
    (∀ es' s', Runs.Along step Silent abandoned es' → abandoned.run es' = some s' →
        s'.alive = true ∧ s'.loop = .wait) ∧
      ∀ bytes, bytes ≠ [] → ∃ s', abandoned.run (wound bytes) = some s' ∧ s'.loop = .returned :=
  terminal_lingers (Option.some_get (by decide +kernel : (opened.run typedAndLeft).isSome = true)).symm
    (by decide +kernel) (by decide +kernel) (by decide +kernel) (by decide +kernel) (by decide +kernel)

end Ends

end Session

end Nixbox.Server.Terminal
