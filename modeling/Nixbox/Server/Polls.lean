/-
The tail loop over its polls: however the polls cut a growing log, the events sent are the lines
of the whole log, and the offset stands after what has been read.
-/
import Mathlib.Data.List.ReduceOption
import Nixbox.Server.Events

namespace Nixbox.Events

open Store

/-- What a poll of the loop finds: the file, unless it cannot be read, and the row. -/
structure Poll where
  file : Option Bytes
  row : Except Err JobStatus

/-- The loop, poll by poll; the tick starts the next one unless the stream has ended. -/
def tailLoop (t : Tail) : List Poll → Tail
  | [] => t
  | p :: ps =>
    let t := (t.readFile p.file).readRow p.row
    if t.phase = .done then t else tailLoop { t with phase := .readFile } ps

/-- The polls of a stream that finds the job running until the last one. -/
def polls (before : List (Option Bytes)) (last : Option Bytes) (row : Except Err JobStatus) : List Poll :=
  before.map (⟨·, .ok .running⟩) ++ [⟨last, row⟩]

/-- The part of the log the polls have read, the last of their views. -/
def consumed (views : List (Option Bytes)) : Bytes := views.reduceOption.getLastD []

/-- Each view is of some longer part of the log, and the last is of all of it. -/
structure Growing (log : Bytes) (views : List (Option Bytes)) : Prop where
  longer : views.reduceOption.Pairwise (· <+: ·)
  whole : consumed views = log

/-- The log split at line feeds, the last piece dropped when empty. -/
def pieces (log : Bytes) : List Bytes :=
  let split := log.splitOn newline
  if split.getLast? = some [] then split.dropLast else split

section Polls

variable {t : Tail} {seen log : Bytes} {before before' views : List (Option Bytes)} {last last' v : Option Bytes}
  {row : Except Err JobStatus}

theorem pieces_eq_logLines (log : Bytes) : pieces log = logLines log := by
  have hlast : (log.splitOn newline).getLast? = some (Lines.rest newline log) :=
    List.getLast?_eq_some_getLast (List.splitOn_ne_nil newline log)
  unfold pieces logLines Lines.lines
  dsimp only
  by_cases hrest : Lines.rest newline log = []
  · rw [if_pos (hlast.trans (congrArg some hrest)), if_pos hrest, List.append_nil]
    rfl
  · rw [if_neg (by simpa [hlast] using hrest), if_neg hrest, Lines.ended_append_rest]

theorem consumed_concat : consumed (before ++ [v]) = v.getD (consumed before) := by
  unfold consumed
  rw [List.reduceOption_append]
  cases v with
  | none => exact congrArg (List.getLastD · []) (List.append_nil _)
  | some b => exact List.getLastD_concat ..

/-- A poll reads on; one that cannot read the file stays where it is. -/
theorem read_at (h : Watched.At t seen) (hv : ∀ b, v = some b → seen <+: b) :
    Watched.At (t.readFile v) (v.getD seen) := by
  cases v with
  | none => exact ⟨h.offset, h.pending, h.sent⟩
  | some b =>
    obtain ⟨m, rfl⟩ := hv b rfl
    exact Watched.readFile_at h

theorem poll_at (h : Watched.At t seen) (hv : ∀ b, v = some b → seen <+: b) :
    Watched.At { (t.readFile v).readRow (.ok .running) with phase := .readFile } (v.getD seen) :=
  have hread := read_at h hv
  ⟨hread.offset, hread.pending, hread.sent⟩

theorem tailLoop_running (t : Tail) (v : Option Bytes) (ps : List Poll) :
    tailLoop t (⟨v, .ok .running⟩ :: ps) =
      tailLoop { (t.readFile v).readRow (.ok .running) with phase := .readFile } ps := rfl

/-- After polls that find the job running, from a stream that stands after `seen`. -/
theorem tailLoop_at (h : Watched.At t seen) (hlonger : (seen :: before.reduceOption).Pairwise (· <+: ·))
    (ps : List Poll) :
    ∃ t', tailLoop t (before.map (⟨·, .ok .running⟩) ++ ps) = tailLoop t' ps ∧
      Watched.At t' (before.reduceOption.getLastD seen) := by
  induction before generalizing t seen with
  | nil => exact ⟨t, rfl, h⟩
  | cons v before ih =>
    rw [List.map_cons, List.cons_append, tailLoop_running]
    cases v with
    | none => exact ih (poll_at h nofun) hlonger
    | some b =>
      rw [List.reduceOption_cons_of_some] at hlonger ⊢
      have hseen : seen <+: b := List.rel_of_pairwise_cons hlonger (.head _)
      obtain ⟨t', hloop, hat⟩ :=
        ih (poll_at h fun _ hb => Option.some.inj hb ▸ hseen) (List.pairwise_cons.1 hlonger).2
      exact ⟨t', hloop, by rw [List.getLastD_cons]; exact hat⟩

theorem Growing.parts (h : Growing log (before ++ [last])) : ([] :: before.reduceOption).Pairwise (· <+: ·) ∧
    ∀ b, last = some b → consumed before <+: b := by
  have hlonger := h.longer
  rw [List.reduceOption_append, List.pairwise_append] at hlonger
  refine ⟨List.pairwise_cons.2 ⟨fun _ _ => List.nil_prefix, hlonger.1⟩, ?_⟩
  rintro b rfl
  unfold consumed
  cases hlast : before.reduceOption.getLast? with
  | none => simp [List.getLastD_eq_getLast?, hlast]
  | some x =>
    rw [List.getLastD_eq_getLast?, hlast]
    exact hlonger.2.2 x (List.mem_of_getLast? hlast) b (.head _)

/-- The last poll ends the stream. -/
theorem tailLoop_polls (h : Growing log (before ++ [last])) (hrow : row ≠ .ok .running) :
    ∃ t : Tail, tailLoop .start (polls before last row) = (t.readFile last).readRow row ∧
      Watched.At (t.readFile last) log := by
  obtain ⟨hlonger, hlast⟩ := h.parts
  obtain ⟨t, hloop, hat⟩ := tailLoop_at Watched.at_start hlonger [⟨last, row⟩]
  have hread : Watched.At (t.readFile last) log := by
    rw [← h.whole, consumed_concat]
    exact read_at hat hlast
  refine ⟨t, ?_, hread⟩
  unfold polls
  rw [hloop]
  show (if _ then _ else _) = _
  rw [if_pos (Watched.readRow_sent hread hrow).1]

/-- The offset after any number of polls. -/
theorem tailLoop_offset (h : Growing log (before ++ [last])) (hrow : row ≠ .ok .running) (n : Nat) :
    (tailLoop .start ((polls before last row).take n)).offset = (consumed ((before ++ [last]).take n)).length := by
  rcases Nat.lt_or_ge before.length n with hn | hn
  · -- all of them
    obtain ⟨t, hloop, hat⟩ := tailLoop_polls h hrow
    rw [List.take_of_length_le (by simp [polls]; omega), List.take_of_length_le (by simp; omega), hloop, h.whole,
      ← hat.offset]
    unfold Tail.readRow
    split <;> rfl
  · have hlonger : ([] :: (before.take n).reduceOption).Pairwise (· <+: ·) :=
      h.parts.1.sublist (.cons_cons _ ((List.take_sublist n before).filterMap _))
    obtain ⟨t, hloop, hat⟩ := tailLoop_at Watched.at_start hlonger []
    have htake : (polls before last row).take n = (before.take n).map (⟨·, .ok .running⟩) ++ [] := by
      unfold polls
      rw [List.take_append_of_le_length (by simpa using hn), List.map_take, List.append_nil]
    rw [htake, List.take_append_of_le_length hn, hloop]
    exact hat.offset

theorem tailLoop_sent (h : Growing log (before ++ [last])) (hrow : row ≠ .ok .running) :
    (tailLoop .start (polls before last row)).sent = (pieces log).map .append ++ [.done (Tail.lastStatus row)] := by
  obtain ⟨t, hloop, hat⟩ := tailLoop_polls h hrow
  rw [hloop, pieces_eq_logLines]
  exact (Watched.readRow_sent hat hrow).2

/-- However the polls cut the log, the stream carries its lines, once each and in order, and the offset is the length of
what the polls have read; another stream on the log, with other polls, carries the same. -/
theorem tailLoop_growing (h : Growing log (before ++ [last])) (hrow : row ≠ .ok .running) :
    (tailLoop .start (polls before last row)).sent = (pieces log).map .append ++ [.done (Tail.lastStatus row)] ∧
      (∀ n, (tailLoop .start ((polls before last row).take n)).offset =
        (consumed ((before ++ [last]).take n)).length) ∧
      ∀ before' last', Growing log (before' ++ [last']) →
        (tailLoop .start (polls before' last' row)).sent = (tailLoop .start (polls before last row)).sent :=
  ⟨tailLoop_sent h hrow, tailLoop_offset h hrow, fun _ _ h' =>
    (tailLoop_sent h' hrow).trans (tailLoop_sent h hrow).symm⟩

/-- Five polls: the log cut inside a line, not readable, unchanged, cut after a line feed, whole. -/
def fivePolls : List (Option Bytes) := [some [111], none, some [111], some [111, 107, newline]]

theorem tailLoop_growing_five :
    (tailLoop .start (polls fivePolls (some [111, 107, newline, 33]) (.ok .ok))).sent =
        (pieces [111, 107, newline, 33]).map .append ++ [.done .ok] ∧
      (∀ n, (tailLoop .start ((polls fivePolls (some [111, 107, newline, 33]) (.ok .ok)).take n)).offset =
        (consumed ((fivePolls ++ [some [111, 107, newline, 33]]).take n)).length) ∧
      ∀ before' last', Growing [111, 107, newline, 33] (before' ++ [last']) →
        (tailLoop .start (polls before' last' (.ok .ok))).sent =
          (tailLoop .start (polls fivePolls (some [111, 107, newline, 33]) (.ok .ok))).sent :=
  tailLoop_growing ⟨by decide, by decide⟩ nofun

end Polls

end Nixbox.Events
