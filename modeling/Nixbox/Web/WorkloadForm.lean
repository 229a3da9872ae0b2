/-
The save form of the workload page: what it holds, the guard that disables the buttons which deploy while
the form differs from its last save, and the form's requests, of which one is under way at a time.
-/
import Nixbox.Lib.UrlEncoded
import Nixbox.Server.Workloads

namespace Nixbox.Web

open Nix Server UrlEncoded

/-- What the form holds: the text of the editor, and a port and a protocol for each row of host ports. -/
structure Form where
  content : String
  rows : List (String × String)
  deriving DecidableEq, Repr

namespace Form

variable (f : Form)

/-- The ports of the rows. -/
def ports : List String := f.rows.map Prod.fst

/-- The protocols of the rows. -/
def protos : List String := f.rows.map Prod.snd

/-- The fields of the form in document order. -/
def entries : List (String × String) :=
  ("content", f.content) :: f.rows.flatMap fun r => [("port", r.1), ("proto", r.2)]

/-- The handler's canonical form: the content and the port string a save of the form stores, or the complaint about
a row. -/
def canonical : Except Msg (String × String) :=
  (parseHostPorts f.ports f.protos).map fun ps => (normalizeContent f.content, formatHostPorts ps)

/-- The request that saves the form. -/
def save (name : String) : Request := .workloadSave name f.content f.ports f.protos

end Form

/-- The bytes a string is encoded as. -/
def utf8 (s : String) : Bytes := s.toUTF8.data.toList

/-- What `URLSearchParams` leaves as it is. -/
def plain (b : UInt8) : Bool :=
  let n := b.toNat
  (48 ≤ n && n ≤ 57) || (65 ≤ n && n ≤ 90) || (97 ≤ n && n ≤ 122) || b == 42 ||
    b == 45 || b == 46 || b == 95

/-- `signature`: the entries of the form, urlencoded. -/
def signature (f : Form) : Bytes := encode plain (f.entries.map fun e => (utf8 e.1, utf8 e.2))

/-! ## The guard -/

/-- The state of `guardUnsavedEditor`, and what it does to the buttons that require a saved form. -/
structure Guard where
  form : Form
  savedValue : Bytes
  inflightValue : Option Bytes
  wasDisabled : Bool
  disabled : Bool
  deriving DecidableEq, Repr

namespace Guard

variable (g : Guard)

/-- The button follows the form. -/
def refresh : Guard := { g with disabled := g.wasDisabled || signature g.form ≠ g.savedValue }

/-- The page is loaded with what the form shows. -/
def load (f : Form) (wasDisabled : Bool) : Guard := refresh ⟨f, signature f, none, wasDisabled, wasDisabled⟩

/-- An edit of the text, or of the rows. -/
def input (f : Form) : Guard := refresh { g with form := f }

/-- `htmx:beforeRequest` of the form itself. -/
def beforeRequest : Guard := { g with inflightValue := some (signature g.form) }

/-- `htmx:afterRequest` of the form itself. -/
def afterRequest (successful : Bool) : Guard :=
  match successful, g.inflightValue with
  | true, some v => refresh { g with
      savedValue := v
      inflightValue := none }
  | _, _ => g

end Guard

/-! ## Its requests -/

/-- The form's request: none, one on its way to the handler with what the form held, or one whose answer is on its
way back. -/
inductive Flight
  | idle
  | sent (f : Form)
  | answered (f : Form) (r : Response)
  deriving DecidableEq, Repr

/-- The form whose request is on its way. -/
def Flight.asked : Flight → Option Form
  | .sent f => some f
  | _ => none

/-- The form whose answer is on its way. -/
def Flight.done : Flight → Option Form
  | .answered f _ => some f
  | _ => none

/-- The page with the request of its form; a submission meanwhile waits, and a later one takes its place. -/
structure Page where
  guard : Guard
  flight : Flight
  queued : Bool
  deriving DecidableEq, Repr

/-- The status the answer is sent with. -/
def status : Response → Nat
  | .error code _ => code
  | .serverError _ => 500
  | .notFound => 404
  | .redirect .. => 303
  | .hxRedirect _ => 200
  | .newWorkload .. => 422
  | .saveResult _ => 200
  | .jobLog .. => 200

/-- `detail.successful`: no error status. -/
def successful (r : Response) : Bool := 200 ≤ status r && status r < 400

namespace Page

-- The browser's own check of the fields: a form that fails it is not sent.
variable (valid : Form → Bool) (p : Page)

/-- The page as it is loaded. -/
def load (f : Form) (wasDisabled : Bool) : Page := ⟨Guard.load f wasDisabled, .idle, false⟩

/-- The user edits the form. -/
def edit (f : Form) : Page := { p with guard := p.guard.input f }

/-- The request is sent with what the form holds now. -/
def issue : Page :=
  if valid p.guard.form then ⟨p.guard.beforeRequest, .sent p.guard.form, false⟩
  else { p with queued := false }

/-- The user submits the form: while a save is on its way, HTMX queues it. -/
def submit : Page := if p.flight = .idle then p.issue valid else { p with queued := true }

/-- The answer arrives; a waiting submission is sent after it was dealt with. -/
def deliver (r : Response) : Page :=
  let p := { p with
    guard := p.guard.afterRequest (successful r)
    flight := .idle }
  if p.queued then p.issue valid else p

end Page

/-! ## Two forms of one signature are the same -/

section Guard

variable {g : Guard} {f : Form} {ok : Bool}

/-- The buttons are as `refresh` leaves them. -/
def Guard.Shown (g : Guard) : Prop := g.disabled = (g.wasDisabled || decide (signature g.form ≠ g.savedValue))

theorem Guard.shown_refresh : g.refresh.Shown := rfl

theorem Guard.Shown.afterRequest (h : g.Shown) : (g.afterRequest ok).Shown := by
  unfold Guard.afterRequest
  split
  · exact Guard.shown_refresh
  · exact h

@[simp] theorem Guard.afterRequest_form : (g.afterRequest ok).form = g.form := by
  unfold Guard.afterRequest
  split <;> rfl

/-- After a successful request the value that was sent is the saved one. -/
theorem Guard.afterRequest_ok {v : Bytes} (h : g.inflightValue = some v) : (g.afterRequest true).savedValue = v := by
  unfold Guard.afterRequest
  rw [h]
  rfl

@[simp] theorem Guard.afterRequest_failed : g.afterRequest false = g := rfl

/-- Buttons that are enabled tell that the form is as it was saved. -/
theorem Guard.Shown.enabled (h : g.Shown) (henabled : g.disabled = false) : signature g.form = g.savedValue := by
  unfold Guard.Shown at h
  rw [henabled] at h
  by_contra hne
  rw [decide_eq_true hne, Bool.or_true] at h
  exact nomatch h

end Guard

end Nixbox.Web
