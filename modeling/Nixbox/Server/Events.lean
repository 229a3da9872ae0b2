/-
The stream of a job's log: `handleJobEvents` tails the log file while the job writes it, and ends
when it finds the job's row no longer running. The file and the row are read at two instants.
-/
import Nixbox.Lib.Lines
import Nixbox.Lib.Runs
import Nixbox.Store.Schema

namespace Nixbox.Events

open Store

/-- A text as bytes. -/
abbrev Bytes := List UInt8

/-- The byte that ends a line. -/
def newline : UInt8 := 10

/-- An event as the handler writes it: the name and the data. -/
inductive JobEvent
  | append (line : Bytes)
  | done (status : JobStatus)
  deriving DecidableEq, Repr

/-! ## The handler -/

/-- What the handler does next: read the file, read the row, wait for the tick. -/
inductive TailPhase
  | readFile
  | readRow
  | wait
  | done
  | left
  deriving DecidableEq, Repr

/-- The variables of the handler, and what it has written. `pending` is the partial last line
carried between polls. -/
structure Tail where
  phase : TailPhase
  offset : Nat
  pending : Bytes
  sent : List JobEvent
  deriving DecidableEq, Repr

namespace Tail

/-- The handler once it has found the job. -/
def start : Tail := ⟨.readFile, 0, [], []⟩

/-- Read anything appended since the last poll; nothing from a file that cannot be read. -/
def readFile (t : Tail) (file : Option Bytes) : Tail :=
  match file with
  | none => { t with phase := .readRow }
  | some content =>
    if t.offset < content.length then
      let lines := (t.pending ++ content.drop t.offset).splitOn newline
      { phase := .readRow
        offset := content.length
        pending := lines.getLast (List.splitOn_ne_nil newline _)
        sent := t.sent ++ lines.dropLast.map .append }
    else { t with phase := .readRow }

/-- The status the stream ends with. -/
def lastStatus : Except Err JobStatus → JobStatus
  | .ok status => status
  | .error _ => .failed

/-- Read the row: one that is not running, or cannot be read, ends the stream. -/
def readRow (t : Tail) (row : Except Err JobStatus) : Tail :=
  match row with
  | .ok .running => { t with phase := .wait }
  | row =>
    { t with
      phase := .done
      sent := t.sent ++ (if t.pending = [] then [] else [.append t.pending]) ++
        [.done (lastStatus row)] }

end Tail

/-! ## The job and the stream -/

/-- The log file of a job, once created, the status of its row, and a stream on it. -/
structure Watched where
  file : Option Bytes
  status : JobStatus
  tail : Tail
  deriving DecidableEq, Repr

/-- What happens next: the job creates its log, writes to it, records its end; the handler reads
the file or the row, wakes up, or finds its client gone. -/
inductive Event
  | create
  | write (b : Bytes)
  | finish (status : JobStatus)
  | readFile (fails : Bool)
  | readRow (fails : Bool)
  | tick
  | leave
  deriving DecidableEq, Repr

namespace Watched

/-- A stream that begins on a log and a row as they stand. -/
def start (file : Option Bytes) (status : JobStatus) : Watched := ⟨file, status, .start⟩

/-- The content of the log. -/
def log (w : Watched) : Bytes := w.file.getD []

/-- Every log write comes before `FinishJob`. -/
def step (w : Watched) : Event → Option Watched
  | .create => if w.status = .running ∧ w.file = none then some { w with file := some [] } else none
  | .write b =>
    if w.status = .running then w.file.map fun content => { w with file := some (content ++ b) } else none
  | .finish status =>
    if w.status = .running ∧ status ≠ .running then some { w with status := status } else none
  | .readFile fails =>
    if w.tail.phase = .readFile then
      some { w with tail := w.tail.readFile (if fails then none else w.file) }
    else none
  | .readRow fails =>
    if w.tail.phase = .readRow then
      some { w with tail := w.tail.readRow (if fails then .error .failed else .ok w.status) }
    else none
  | .tick => if w.tail.phase = .wait then some { w with tail.phase := .readFile } else none
  | .leave => if w.tail.phase = .wait then some { w with tail.phase := .left } else none

/-- The state after a run. -/
def run (w : Watched) (es : List Event) : Option Watched := Runs.exec step w es

end Watched

/-! ## What the stream carries -/

/-- The data of the append events before the done event. -/
def appended : List JobEvent → List Bytes
  | .append line :: sent => line :: appended sent
  | _ => []

/-- The lines of a log, an unterminated last one included. -/
def logLines (log : Bytes) : List Bytes := Lines.lines newline log

/-- The bytes written to the log after the handler's last read of it, `m` of them before the
events. -/
def missed (m : Bytes) : List Event → Bytes
  | [] => m
  | .write b :: es => missed (m ++ b) es
  | .readFile false :: es => missed [] es
  | _ :: es => missed m es

theorem appended_append (ls : List Bytes) (sent : List JobEvent) :
    appended (ls.map .append ++ sent) = ls ++ appended sent := by
  induction ls with
  | nil => rfl
  | cons l ls ih => simp [appended, ih]

/-! ## The invariant of a stream -/

namespace Watched

variable {w w' : Watched} {e : Event} {es : List Event} {m : Bytes}

/-- The handler stands after `seen`: it has sent the lines that end there and carries the rest. -/
structure At (t : Tail) (seen : Bytes) : Prop where
  offset : t.offset = seen.length
  pending : t.pending = Lines.rest newline seen
  sent : t.sent = (Lines.ended newline seen).map .append

/-- The stream has ended after `seen`. -/
def EndedAt (t : Tail) (seen : Bytes) : Prop :=
  ∃ status, t.sent = (logLines seen).map .append ++ [.done status]

/-- What the handler has of the log, all but `m`. -/
structure Following (w : Watched) (m seen : Bytes) : Prop where
  log : w.log = seen ++ m
  tailing : w.tail.phase ≠ .done → At w.tail seen
  ended : w.tail.phase = .done → EndedAt w.tail seen

theorem at_start : At .start [] := ⟨rfl, Lines.rest_nil.symm, by rw [Lines.ended_nil]; rfl⟩

theorem following_start (file : Option Bytes) (status : JobStatus) :
    (start file status).Following (file.getD []) [] where
  log := rfl
  tailing _ := at_start
  ended hdone := nomatch hdone

theorem readFile_phase {t : Tail} {file : Option Bytes} : (t.readFile file).phase = .readRow := by
  unfold Tail.readFile
  split
  · rfl
  · split <;> rfl

theorem readFile_at {t : Tail} {seen m : Bytes} (h : At t seen) :
    At (t.readFile (some (seen ++ m))) (seen ++ m) := by
  unfold Tail.readFile
  dsimp only
  split
  · have hdrop : (seen ++ m).drop t.offset = m := by rw [h.offset, List.drop_left]
    obtain ⟨hended, hrest⟩ := Lines.ended_rest_append newline seen m
    refine ⟨rfl, ?_, ?_⟩
    · dsimp only
      simp only [hdrop, h.pending]
      exact hrest.symm
    · dsimp only
      simp only [hdrop, h.pending, h.sent, hended, List.map_append]
      rfl
  · rename_i hle
    have hm : m = [] := by
      rw [h.offset, List.length_append] at hle
      exact List.length_eq_zero_iff.1 (by omega)
    rw [hm, List.append_nil]
    exact ⟨h.offset, h.pending, h.sent⟩

theorem readRow_sent {t : Tail} {seen : Bytes} (h : At t seen) {row : Except Err JobStatus}
    (hrow : row ≠ .ok .running) : (t.readRow row).phase = .done ∧
      (t.readRow row).sent = (logLines seen).map .append ++ [.done (Tail.lastStatus row)] := by
  unfold Tail.readRow
  split
  · exact absurd rfl hrow
  · refine ⟨rfl, ?_⟩
    dsimp only
    rw [h.sent, h.pending, logLines, Lines.lines, List.map_append]
    split <;> rfl

theorem readRow_ended {t : Tail} {seen : Bytes} (h : At t seen) {row : Except Err JobStatus}
    (hrow : row ≠ .ok .running) : (t.readRow row).phase = .done ∧ EndedAt (t.readRow row) seen :=
  ⟨(readRow_sent h hrow).1, _, (readRow_sent h hrow).2⟩

/-- One step: what the handler misses is what is written after its last read. -/
theorem following_step {seen : Bytes} (h : w.Following m seen) (hs : w.step e = some w') :
    ∃ seen', w'.Following (missed m [e]) seen' := by
  cases e with
  | create =>
    unfold step at hs
    dsimp only at hs
    split at hs <;> cases hs
    rename_i hc
    refine ⟨seen, ?_, h.tailing, h.ended⟩
    have hlog := h.log
    rw [log, hc.2] at hlog
    exact hlog
  | write b =>
    unfold step at hs
    dsimp only at hs
    split at hs
    · obtain ⟨content, hfile, rfl⟩ := Option.map_eq_some_iff.1 hs
      refine ⟨seen, ?_, h.tailing, h.ended⟩
      have hlog := h.log
      rw [log, hfile] at hlog
      show content ++ b = seen ++ (m ++ b)
      rw [← List.append_assoc, ← hlog]
      rfl
    · cases hs
  | finish status =>
    unfold step at hs
    dsimp only at hs
    split at hs <;> cases hs
    exact ⟨seen, h.log, h.tailing, h.ended⟩
  | readFile fails =>
    unfold step at hs
    dsimp only at hs
    split at hs <;> cases hs
    rename_i hphase
    have hat : At w.tail seen := h.tailing (by simp [hphase])
    have hgo : ∀ file, (w.tail.readFile file).phase = .done → False := fun file hd => by
      rw [readFile_phase] at hd
      cases hd
    cases fails with
    | true => exact ⟨seen, h.log, fun _ => ⟨hat.offset, hat.pending, hat.sent⟩, fun hd => (hgo _ hd).elim⟩
    | false =>
      refine ⟨w.log, (List.append_nil _).symm, fun _ => ?_, fun hd => (hgo _ hd).elim⟩
      show At (w.tail.readFile w.file) w.log
      have hlog := h.log
      cases hfile : w.file with
      | none =>
        -- a log that is not there yet is empty
        have hnil : w.log = [] := by rw [log, hfile]; rfl
        rw [hnil] at hlog ⊢
        obtain ⟨rfl, -⟩ := List.append_eq_nil_iff.1 hlog.symm
        exact ⟨hat.offset, hat.pending, hat.sent⟩
      | some content =>
        have hw : w.log = content := by rw [log, hfile]; rfl
        rw [hw] at hlog ⊢
        rw [hlog]
        exact readFile_at hat
  | readRow fails =>
    unfold step at hs
    dsimp only at hs
    split at hs <;> cases hs
    rename_i hphase
    have hat : At w.tail seen := h.tailing (by simp [hphase])
    by_cases hrow : (if fails then Except.error Err.failed else .ok w.status) = .ok JobStatus.running
    · rw [hrow]
      exact ⟨seen, h.log, fun _ => ⟨hat.offset, hat.pending, hat.sent⟩, nofun⟩
    · obtain ⟨hdone, hended⟩ := readRow_ended hat hrow
      exact ⟨seen, h.log, fun hne => absurd hdone hne, fun _ => hended⟩
  | tick | leave =>
    unfold step at hs
    dsimp only at hs
    split at hs <;> cases hs
    rename_i hphase
    have hat : At w.tail seen := h.tailing (by simp [hphase])
    exact ⟨seen, h.log, fun _ => ⟨hat.offset, hat.pending, hat.sent⟩, nofun⟩

theorem missed_cons (m : Bytes) (e : Event) (es : List Event) : missed m (e :: es) = missed (missed m [e]) es := by
  cases e with
  | readFile fails => cases fails <;> rfl
  | _ => rfl

theorem following_run {seen : Bytes} (h : w.Following m seen) (hrun : w.run es = some w') :
    ∃ seen', w'.Following (missed m es) seen' := by
  induction es generalizing w m seen with
  | nil => cases hrun; exact ⟨seen, h⟩
  | cons e es ih =>
    obtain ⟨v, hv, hrun⟩ := Runs.exec_cons_some.1 hrun
    obtain ⟨seen', h'⟩ := following_step h hv
    rw [missed_cons]
    exact ih h' hrun

/-! ## Completeness of the stream -/

/-- In every interleaving of the job's steps with the handler's, the append events before the done
event carry the lines of the complete log, in order and once each, exactly if nothing was written
to the log after the handler last read it, or only the newline of the last line it read. -/
theorem appended_eq_lines {file : Option Bytes} {status : JobStatus} (hrun : (start file status).run es = some w)
    (hdone : w.tail.phase = .done) : appended w.tail.sent = logLines w.log ↔
      missed (file.getD []) es = [] ∨
        (missed (file.getD []) es = [newline] ∧ Lines.rest newline w.log.dropLast ≠ []) := by
  obtain ⟨seen, hlog, -, hended⟩ := following_run (following_start file status) hrun
  generalize missed (file.getD []) es = m at hlog
  obtain ⟨st, hsent⟩ := hended hdone
  have happ : appended w.tail.sent = logLines seen := by
    rw [hsent, appended_append]
    exact List.append_nil _
  rw [happ, hlog, logLines, logLines, eq_comm, Lines.lines_append_eq_iff]
  refine or_congr_right (and_congr_right fun hm => ?_)
  rw [hm, List.dropLast_concat]

/-- The stream reads the file once more after the job has written its last, unterminated line. -/
def lastLineCaught : List Event :=
  [.create, .readFile false, .readRow false, .write [111, 107, newline, 33], .finish .ok, .tick, .readFile false,
    .readRow false]

/-- A job whose last line was read in time. -/
def afterCaught : Watched := ((start none .running).run lastLineCaught).get (by decide +kernel)

theorem appended_eq_lines_caught : appended afterCaught.tail.sent = logLines afterCaught.log ↔
    missed [] lastLineCaught = [] ∨
      (missed [] lastLineCaught = [newline] ∧ Lines.rest newline afterCaught.log.dropLast ≠ []) :=
  appended_eq_lines (Option.some_get _).symm (by decide +kernel)

/-- The stream reads the empty log; the job writes its only line and ends; the stream finds it
ended. -/
def lastLineMissed : List Event :=
  [.create, .readFile false, .write [111, 107, newline], .finish .ok, .readRow false]

/-- A job whose last line came between the two readings of a poll. -/
def afterMissed : Watched := ((start none .running).run lastLineMissed).get (by decide +kernel)

theorem appended_ne_lines : ¬ ∀ es w, (start none .running).run es = some w → w.status ≠ .running →
    w.tail.phase = .done → appended w.tail.sent = logLines w.log := by
  intro h
  have heq := h lastLineMissed afterMissed (Option.some_get _).symm (by decide +kernel) (by decide +kernel)
  exact absurd heq (by decide +kernel)

end Watched

end Nixbox.Events
