/-
The stream of a job's log on the wire, and what the browser's `EventSource` makes of it: the lines
of the log come through exactly if none has a carriage return.
-/
import Nixbox.Lib.EventStream
import Nixbox.Server.Polls

namespace Nixbox.Events

open Store EventStream

/-- The status in the data of `done`. -/
def statusText : JobStatus → String
  | .running => "running"
  | .ok => "ok"
  | .failed => "failed"

namespace JobEvent

/-- An event as it is written to the response. -/
def wire : JobEvent → Bytes
  | append line => ascii "event: append\ndata: " ++ line ++ ascii "\n\n"
  | done status => ascii "event: done\ndata: " ++ ascii (statusText status) ++ ascii "\n\n"

/-- The event as the page should get it. -/
def message : JobEvent → Message
  | append line => ⟨ascii "append", line⟩
  | done status => ⟨ascii "done", ascii (statusText status)⟩

end JobEvent

/-- The body of the response. -/
def body (sent : List JobEvent) : Bytes := sent.flatMap JobEvent.wire

section Wire

variable {e : JobEvent} {sent : List JobEvent} {log rest : Bytes} {before : List (Option Bytes)} {last : Option Bytes}
  {status : JobStatus}

theorem wire_eq (e : JobEvent) : e.wire = write e.message := by
  cases e with
  | append line =>
    show ascii "event: append\ndata: " ++ line ++ _ = _
    rw [List.append_assoc]
    rfl
  | done status => cases status <;> rfl

theorem message_type (e : JobEvent) : e.message.type ≠ [] ∧ lf ∉ e.message.type ∧ cr ∉ e.message.type := by
  cases e with
  | append line =>
    show ascii "append" ≠ [] ∧ lf ∉ ascii "append" ∧ cr ∉ ascii "append"
    decide
  | done status =>
    show ascii "done" ≠ [] ∧ lf ∉ ascii "done" ∧ cr ∉ ascii "done"
    decide

/-- An event whose data has no line end comes through. -/
theorem parse_wire (hlf : lf ∉ e.message.data) (hcr : cr ∉ e.message.data) :
    parse (e.wire ++ rest) = e.message :: parse rest := by
  obtain ⟨htype, htlf, htcr⟩ := message_type e
  rw [wire_eq, parse_write htype htlf htcr hlf hcr]

theorem parse_body (h : ∀ e ∈ sent, lf ∉ e.message.data ∧ cr ∉ e.message.data) :
    parse (body sent) = sent.map JobEvent.message := by
  induction sent with
  | nil => rfl
  | cons e sent ih =>
    obtain ⟨he, h⟩ := List.forall_mem_cons.1 h
    show parse (e.wire ++ body sent) = _
    rw [parse_wire he.1 he.2, ih h, List.map_cons]

/-- The messages the page should get of a log and the status its job ended with. -/
def expected (log : Bytes) (status : JobStatus) : List Message :=
  (pieces log).map (⟨ascii "append", ·⟩) ++ [⟨ascii "done", ascii (statusText status)⟩]

/-- Whatever the polls, the page gets one append event for each line of the log, with that line, and one done event with
the status exactly if the log has no carriage return. -/
theorem parse_stream_iff (h : Growing log (before ++ [last])) (hst : status ≠ .running) :
    parse (body (tailLoop .start (polls before last (.ok status))).sent) = expected log status ↔ cr ∉ log := by
  have hsent : (tailLoop .start (polls before last (.ok status))).sent =
      (logLines log).map .append ++ [.done status] := by
    rw [tailLoop_sent h (fun hrow => hst (Except.ok.inj hrow)), pieces_eq_logLines]
    rfl
  have hexpected : expected log status =
      ((logLines log).map JobEvent.append ++ [JobEvent.done status]).map JobEvent.message := by
    unfold expected
    rw [pieces_eq_logLines, List.map_append, List.map_map]
    rfl
  rw [hsent, hexpected]
  constructor
  · intro heq hmem
    -- a line with the carriage return would be the data of an event
    obtain ⟨line, hline, hcr⟩ := Lines.exists_mem_lines.2 ⟨hmem, (by decide : cr ≠ newline)⟩
    have hin : JobEvent.append line ∈ (logLines log).map JobEvent.append ++ [JobEvent.done status] :=
      List.mem_append_left _ (List.mem_map_of_mem hline)
    have hevent := List.mem_map_of_mem (f := JobEvent.message) hin
    rw [← heq] at hevent
    exact parse_cr _ hevent hcr
  · intro hcr
    refine parse_body fun e he => ?_
    rcases List.mem_append.1 he with he | he
    · obtain ⟨line, hline, rfl⟩ := List.mem_map.1 he
      refine ⟨fun hmem => ?_, fun hmem => ?_⟩
      · exact absurd rfl (Lines.exists_mem_lines.1 ⟨line, hline, hmem⟩).2
      · exact hcr (Lines.exists_mem_lines.1 ⟨line, hline, hmem⟩).1
    · obtain rfl := List.mem_singleton.1 he
      cases status <;> exact ⟨by decide, by decide⟩

/-- The polls of a finished job: one, of the whole log. -/
theorem growing_finished (log : Bytes) : Growing log ([] ++ [some log]) := ⟨List.pairwise_singleton .., rfl⟩

theorem parse_stream_iff_plain : parse (body (tailLoop .start (polls [] (some (ascii "ok\n!")) (.ok .failed))).sent) =
    expected (ascii "ok\n!") .failed ↔ cr ∉ ascii "ok\n!" :=
  parse_stream_iff (growing_finished _) nofun

/-- A line that ends the job for the page, which has failed. -/
def forgingLog : Bytes := ascii "a\r\revent: done\rdata: ok\r\r"

theorem parse_stream_forged :
    ¬ ∀ (log : Bytes) (status : JobStatus) (before : List (Option Bytes)) (last : Option Bytes),
    Growing log (before ++ [last]) → status ≠ .running →
      parse (body (tailLoop .start (polls before last (.ok status))).sent) = expected log status := by
  intro h
  have heq := h forgingLog .failed [] (some forgingLog) (growing_finished _) nofun
  have hforged : (⟨ascii "done", ascii "ok"⟩ : Message) ∈
      parse (body (tailLoop .start (polls [] (some forgingLog) (.ok .failed))).sent) := by decide +kernel
  rw [heq] at hforged
  exact absurd hforged (by decide +kernel)

end Wire

end Nixbox.Events
