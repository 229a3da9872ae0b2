/-
The page of a terminal: what is typed and the size of the screen go up the socket once it is open, and what comes down
is shown. The PTY follows the screen.
-/
import Nixbox.Server.Terminal

namespace Nixbox.Web

open Server.Terminal

/-! ## The page -/

/-- `ws.readyState`, from the moment the server has accepted the socket. -/
inductive Ready
  | connecting
  | isOpen
  | closed
  deriving DecidableEq, Repr

/-- What `json.Unmarshal` makes of `JSON.stringify({ rows, cols })`: the numbers have to fit. -/
def termResize (rows cols : Nat) : Option TermResize :=
  if rows < 65536 ∧ cols < 65536 then some ⟨.ofNat rows, .ofNat cols⟩ else none

/-- The session and the page that opened it: the size of the screen, the bytes of what was typed while the socket was
open, and those written to the screen of the first `dispatched` messages that came down. The notice with which the page
says that the session is closed is not among them. -/
structure TerminalPage where
  session : Session
  ready : Ready
  rows : Nat
  cols : Nat
  keys : List UInt8
  dispatched : Nat
  shown : List UInt8
  deriving DecidableEq, Repr

/-- What happens on the page, or on the server. -/
inductive TerminalEvent
  | onopen
  | onData (bytes : List UInt8)
  | onResize (rows cols : Nat)
  | onmessage
  | close
  | server (e : Server.Terminal.Event)
  deriving DecidableEq, Repr

namespace TerminalPage

variable (p : TerminalPage)

/-- The page before its socket is open. -/
def opened (rows cols : Nat) : TerminalPage := ⟨.opened, .connecting, rows, cols, [], 0, []⟩

/-- `ws.send`. -/
def send (f : Server.Terminal.Frame) : Option TerminalPage := do
  let s ← p.session.step (.sends f)
  return { p with session := s }

/-- The steps of the browser's end of the session are the page's. -/
def ofServer : Server.Terminal.Event → Bool
  | .sends _ | .leaves => false
  | _ => true

/-- One step of the page or of the server. -/
def step : TerminalEvent → Option TerminalPage
  | .onopen =>
    if p.ready = .connecting then { p with ready := .isOpen }.send (.text (termResize p.rows p.cols)) else none
  | .onData bytes => if p.ready = .isOpen then { p with keys := p.keys ++ bytes }.send (.binary bytes) else some p
  | .onResize rows cols =>
    let p := { p with rows := rows, cols := cols }
    if p.ready = .isOpen then p.send (.text (termResize rows cols)) else some p
  | .onmessage =>
    match p.ready, p.session.received[p.dispatched]? with
    | .isOpen, some data => some { p with dispatched := p.dispatched + 1, shown := p.shown ++ data }
    | _, _ => none
  | .close => do
    let s ← p.session.step .leaves
    return { p with session := s, ready := .closed }
  | .server e =>
    if ofServer e then do
      let s ← p.session.step e
      return { p with session := s }
    else none

/-- So many steps. -/
def run : TerminalPage → List TerminalEvent → Option TerminalPage := Runs.exec step

/-! ## What is kept -/

/-- The size a text frame tells. -/
def told : Server.Terminal.Frame → Option (Option TermResize)
  | .text m => some m
  | .binary _ => none

/-- The size of a call on the PTY. -/
def size : TtyCall → Option TermResize
  | .setsize m => some m
  | .write _ => none

/-- A size the PTY takes. -/
def fits (rows cols : Nat) : Prop := (0 < rows ∧ rows < 65536) ∧ 0 < cols ∧ cols < 65536

/-- What the page has sent and shown against what the session has. -/
structure Synced : Prop where
  good : p.session.Good
  keys : p.session.sent.flatMap Frame.keystrokes = p.keys
  size : p.ready = .isOpen → (p.session.sent.filterMap told).getLast? = some (termResize p.rows p.cols)
  bound : p.dispatched ≤ p.session.received.length
  shown : p.shown = (p.session.received.take p.dispatched).flatten

section Synced

variable {p p' : TerminalPage} {e : TerminalEvent} {es : List TerminalEvent} {rows cols : Nat} {s s' : Session}
  {f : Server.Terminal.Frame}

theorem synced_opened (rows cols : Nat) : (opened rows cols).Synced :=
  ⟨Session.good_opened, rfl, nofun, Nat.le_refl 0, rfl⟩

/-- A step of the server sends nothing up, and takes back nothing that came down. -/
theorem ofServer_step {e : Server.Terminal.Event} (he : ofServer e = true) (h : s.step e = some s') :
    s'.sent = s.sent ∧ s.received <+: s'.received := by
  cases Session.step_stepped h with
  | sent | left => cases he
  | written | lastWritten => exact ⟨rfl, List.prefix_append _ _⟩
  | _ => exact ⟨rfl, List.prefix_rfl⟩

theorem send_some (h : p.send f = some p') :
    ∃ s, p.session.step (.sends f) = some s ∧ s.sent = p.session.sent ++ [f] ∧ s.received = p.session.received ∧
      p' = { p with session := s } := by
  obtain ⟨s, hs, h⟩ := Option.bind_eq_some_iff.1 h
  cases h
  obtain ⟨-, hsent⟩ := Option.ite_none_right_eq_some.1 hs
  cases hsent
  exact ⟨_, hs, rfl, rfl, rfl⟩

/-- The page after it has sent a frame: a size it tells is the screen's, and keystrokes leave the size as it is. -/
theorem Synced.send (h : p.Synced) {q : TerminalPage} (hsession : q.session = p.session)
    (hdispatched : q.dispatched = p.dispatched) (hshown : q.shown = p.shown) (hkeys : q.keys = p.keys ++ f.keystrokes)
    (hsize : told f = some (termResize q.rows q.cols) ∨
      told f = none ∧ (q.ready = p.ready ∧ q.rows = p.rows ∧ q.cols = p.cols)) (hs : q.send f = some p') :
    p'.Synced := by
  obtain ⟨s, hstep, hsent, hreceived, rfl⟩ := send_some hs
  rw [hsession] at hstep hsent hreceived
  refine ⟨Session.good_step h.good hstep, ?_, fun hopen => ?_, ?_, ?_⟩
  · show s.sent.flatMap _ = q.keys
    rw [hsent, List.flatMap_append, h.keys, hkeys]
    simp
  · show (s.sent.filterMap told).getLast? = _
    rw [hsent, List.filterMap_append]
    rcases hsize with htold | ⟨htold, hready, hrows, hcols⟩
    · simp [htold]
    · have hlast := h.size (hready.symm.trans hopen)
      rw [← hrows, ← hcols] at hlast
      simpa [htold] using hlast
  · show q.dispatched ≤ s.received.length
    rw [hdispatched, hreceived]
    exact h.bound
  · show q.shown = (s.received.take q.dispatched).flatten
    rw [hshown, hdispatched, hreceived]
    exact h.shown

theorem synced_step (hs : p.step e = some p') (h : p.Synced) : p'.Synced := by
  cases e with
  | onopen =>
    obtain ⟨-, hs⟩ := Option.ite_none_right_eq_some.1 hs
    exact h.send (q := { p with ready := .isOpen }) rfl rfl rfl (List.append_nil _).symm (.inl rfl) hs
  | onData bytes =>
    simp only [step] at hs
    split at hs
    · exact h.send (q := { p with keys := p.keys ++ bytes }) rfl rfl rfl rfl (.inr ⟨rfl, rfl, rfl, rfl⟩) hs
    · cases hs
      exact h
  | onResize rows cols =>
    simp only [step] at hs
    split at hs
    · exact h.send (q := { p with rows := rows, cols := cols }) rfl rfl rfl (List.append_nil _).symm (.inl rfl) hs
    · rename_i hready
      cases hs
      exact ⟨h.good, h.keys, fun hopen => absurd hopen hready, h.bound, h.shown⟩
  | onmessage =>
    simp only [step] at hs
    split at hs
    · rename_i data hready hdata
      cases hs
      obtain ⟨hlt, hget⟩ := List.getElem?_eq_some_iff.1 hdata
      refine ⟨h.good, h.keys, h.size, hlt, ?_⟩
      show p.shown ++ data = (p.session.received.take (p.dispatched + 1)).flatten
      rw [List.take_add_one, hdata, List.flatten_append, ← h.shown]
      simp
    · cases hs
  | close =>
    obtain ⟨s, hleave, hs⟩ := Option.bind_eq_some_iff.1 hs
    cases hs
    have hgood := Session.good_step h.good hleave
    obtain ⟨-, hleft⟩ := Option.ite_none_right_eq_some.1 hleave
    cases hleft
    exact ⟨hgood, h.keys, nofun, h.bound, h.shown⟩
  | server e =>
    obtain ⟨he, hs⟩ := Option.ite_none_right_eq_some.1 hs
    obtain ⟨s, hstep, hs⟩ := Option.bind_eq_some_iff.1 hs
    cases hs
    obtain ⟨hsent, t, hreceived⟩ := ofServer_step he hstep
    refine ⟨Session.good_step h.good hstep, ?_, ?_, ?_, ?_⟩
    · show s.sent.flatMap _ = p.keys
      rw [hsent]
      exact h.keys
    · show p.ready = .isOpen → (s.sent.filterMap told).getLast? = _
      rw [hsent]
      exact h.size
    · show p.dispatched ≤ s.received.length
      rw [← hreceived, List.length_append]
      exact Nat.le_trans h.bound (Nat.le_add_right _ _)
    · show p.shown = (s.received.take p.dispatched).flatten
      rw [← hreceived, List.take_append_of_le_length h.bound]
      exact h.shown

/-- The sizes set on the PTY are those told that fit. -/
theorem sizes_calls (fs : List Server.Terminal.Frame) : (fs.filterMap Frame.call).filterMap size =
    (fs.filterMap told).filterMap fun m => m.bind fun m => if m.rows > 0 ∧ m.cols > 0 then some m else none := by
  rw [List.filterMap_filterMap, List.filterMap_filterMap]
  congr 1
  funext f
  match f with
  | .binary data => rfl
  | .text none => rfl
  | .text (some m) =>
    simp only [Frame.call, told, Option.bind_some]
    split <;> rfl

theorem termResize_fits (h : fits rows cols) : termResize rows cols = some ⟨.ofNat rows, .ofNat cols⟩ ∧
    UInt16.ofNat rows > 0 ∧ UInt16.ofNat cols > 0 := by
  have hpos : ∀ n, 0 < n ∧ n < 65536 → UInt16.ofNat n > 0 := by
    intro n hn
    rw [gt_iff_lt, UInt16.lt_iff_toNat_lt, UInt16.toNat_ofNat_of_lt' hn.2]
    exact hn.1
  exact ⟨if_pos ⟨h.1.2, h.2.2⟩, hpos rows h.1, hpos cols h.2⟩

/-- In every run of the page and the session it opened: whenever the handler has dealt with all that was sent up, all
keystrokes have reached the shell, and while the socket is open the PTY has the size of the screen, if it is one a PTY
can have. At any time what has reached the shell is the first part of what was typed while the socket was open, and of
the shell's output the screen shows the first part. -/
theorem terminal_synchronised (hrun : (opened rows cols).run es = some p) :
    (p.session.loop = .reading → p.session.inbox = [] → p.session.typed = p.keys ∧ (p.ready = .isOpen →
      fits p.rows p.cols → (p.session.calls.filterMap size).getLast? = some ⟨.ofNat p.rows, .ofNat p.cols⟩)) ∧
    p.session.typed <+: p.keys ∧ p.shown <+: p.session.printed := by
  have hsynced : p.Synced :=
    Runs.exec_inv_all (I := Synced) (fun _ _ _ h hs => synced_step hs h) (synced_opened rows cols) hrun
  obtain ⟨handled, htyped⟩ := hsynced.good.typed
  refine ⟨fun hl hinbox => ?_, ?_, ?_⟩
  · have hsent := htyped.sent
    rw [hl, hinbox, show Loop.hand .reading ++ ([] : List Server.Terminal.Frame) = [] from rfl,
      List.append_nil] at hsent
    constructor
    · rw [htyped.all (by rw [hl]; rfl), ← hsent, hsynced.keys]
    · intro hopen hfits
      obtain ⟨hresize, hrows, hcols⟩ := termResize_fits hfits
      have hlast := hsynced.size hopen
      obtain ⟨before, hbefore⟩ := List.getLast?_eq_some_iff.1 hlast
      rw [htyped.calls, ← hsent, sizes_calls, hbefore, hresize, List.filterMap_append]
      simp [hrows, hcols]
  · rw [← hsynced.keys, htyped.sent, List.flatMap_append]
    exact htyped.typed.trans (List.prefix_append _ _)
  · rw [hsynced.shown]
    refine List.IsPrefix.trans ⟨(p.session.received.drop p.dispatched).flatten, ?_⟩ hsynced.good.printed.order
    rw [← List.flatten_append, List.take_append_drop]

/-- `ls` is typed, and the window is made larger. -/
def resizing : List TerminalEvent :=
  [.onopen, .onData [108, 115], .server (.socketRead false), .onResize 40 100, .server (.handles 0 false),
    .server (.socketRead false), .server (.handles 0 false), .server (.socketRead false), .server (.handles 0 false)]

/-- The screen has been resized. -/
def resized : TerminalPage := ((opened 24 80).run resizing).get (by decide +kernel)

theorem terminal_synchronised_resized : resized.session.typed = [108, 115] ∧
    (resized.session.calls.filterMap size).getLast? = some ⟨40, 100⟩ := by
  have hrun : (opened 24 80).run resizing = some resized := (Option.some_get _).symm
  obtain ⟨htyped, hsize⟩ := (terminal_synchronised hrun).1 (by decide +kernel) (by decide +kernel)
  exact ⟨htyped, hsize (by decide +kernel) ⟨by decide +kernel, by decide +kernel⟩⟩

end Synced

end TerminalPage

end Nixbox.Web
