/-
The event streams an `EventSource` reads: lines end at a line feed, a carriage return or both,
fields fill a buffer, and a blank line dispatches it. What it makes of a message written on three
lines, and that no carriage return ever gets through.
-/
import Mathlib.Tactic.Common

namespace EventStream

/-- A text as bytes. -/
abbrev Bytes := List UInt8

/-- A line feed. -/
def lf : UInt8 := 10

/-- A carriage return. -/
def cr : UInt8 := 13

/-- The colon after the name of a field. -/
def colon : UInt8 := 58

/-- The one blank that is dropped behind it. -/
def space : UInt8 := 32

/-- The bytes of a text. -/
def ascii (s : String) : Bytes := s.toUTF8.data.toList

/-- A dispatched event. -/
structure Message where
  type : Bytes
  data : Bytes
  deriving DecidableEq, Repr

/-- The lines of the stream, `cur` read of the present one; a line feed after a carriage return
ends nothing more, and an unended last line is dropped. -/
def lines (cur : Bytes) (afterCR : Bool) : Bytes → List Bytes
  | [] => []
  | b :: bs =>
    if b = cr then cur :: lines [] true bs
    else if b = lf then if afterCR then lines cur false bs else cur :: lines [] false bs
    else lines (cur ++ [b]) false bs

/-- The name of a field and its value, which loses one space after the colon. -/
def field (line : Bytes) : Bytes × Bytes :=
  let value := (line.dropWhile (· ≠ colon)).tail
  (line.takeWhile (· ≠ colon), if value.head? = some space then value.tail else value)

/-- What the fields so far have filled. -/
structure Buffer where
  type : Bytes
  data : Bytes

/-- Nothing of an event yet. -/
def Buffer.empty : Buffer := ⟨[], []⟩

/-- A blank line dispatches unless there is no data; the last line feed of the data goes. -/
def dispatch (b : Buffer) : Option Message :=
  if b.data = [] then none else some ⟨if b.type = [] then ascii "message" else b.type, b.data.dropLast⟩

/-- A line that is not blank; fields other than the type and the data dispatch nothing. -/
def process (b : Buffer) (line : Bytes) : Buffer :=
  let (name, value) := field line
  if name = ascii "event" then { b with type := value }
  else if name = ascii "data" then { b with data := b.data ++ value ++ [lf] }
  else b

/-- The messages of the lines, from one state of the buffers on. -/
def messages (b : Buffer) : List Bytes → List Message
  | [] => []
  | line :: ls => if line = [] then (dispatch b).toList ++ messages .empty ls else messages (process b line) ls

/-- The events of a stream, in order. -/
def parse (bs : Bytes) : List Message := messages .empty (lines [] false bs)

/-- A message as a type field, a data field and a blank line. -/
def write (m : Message) : Bytes :=
  (ascii "event" ++ colon :: space :: m.type) ++ lf :: ((ascii "data" ++ colon :: space :: m.data) ++ lf :: lf :: [])

/-! ## Reading what was written -/

section Write

variable {l cur rest name value : Bytes} {b : Buffer} {m : Message} {ls : List Bytes} {afterCR : Bool}

theorem lines_line (hlf : lf ∉ l) (hcr : cr ∉ l) :
    lines cur false (l ++ lf :: rest) = (cur ++ l) :: lines [] false rest := by
  induction l generalizing cur with
  | nil =>
    rw [List.append_nil]
    rfl
  | cons b l ih =>
    obtain ⟨hb, hlf⟩ := not_or.1 (mt List.mem_cons.2 hlf)
    obtain ⟨hb', hcr⟩ := not_or.1 (mt List.mem_cons.2 hcr)
    rw [List.cons_append, lines, if_neg (Ne.symm hb'), if_neg (Ne.symm hb), ih hlf hcr, List.append_assoc,
      List.singleton_append]

theorem field_written (h : colon ∉ name) : field (name ++ colon :: space :: value) = (name, value) := by
  have hne : ∀ c ∈ name, decide (c ≠ colon) = true := fun c hc => by
    simpa using ne_of_mem_of_not_mem hc h
  unfold field
  dsimp only
  rw [List.takeWhile_append_of_pos hne, List.dropWhile_append_of_pos hne]
  simp [space, colon]

/-- What is in neither part of a field is not in the field. -/
theorem not_mem_field {c : UInt8} (hc : c ≠ colon ∧ c ≠ space) (hname : c ∉ name) (hvalue : c ∉ value) :
    c ∉ name ++ colon :: space :: value := by
  simp [hname, hvalue, hc.1, hc.2]

theorem messages_event : messages b ((ascii "event" ++ colon :: space :: value) :: ls) =
    messages { b with type := value } ls := by
  rw [messages, if_neg (by simp), process, field_written (by decide)]
  rfl

theorem messages_data : messages b ((ascii "data" ++ colon :: space :: value) :: ls) =
    messages { b with data := b.data ++ value ++ [lf] } ls := by
  rw [messages, if_neg (by simp), process, field_written (by decide)]
  rfl

/-- A message without line ends comes back, before what follows. -/
theorem parse_write (htype : m.type ≠ []) (htlf : lf ∉ m.type) (htcr : cr ∉ m.type) (hdlf : lf ∉ m.data)
    (hdcr : cr ∉ m.data) : parse (write m ++ rest) = m :: parse rest := by
  have hevent : lf ∉ ascii "event" ++ colon :: space :: m.type := not_mem_field (by decide) (by decide) htlf
  have hevent' : cr ∉ ascii "event" ++ colon :: space :: m.type := not_mem_field (by decide) (by decide) htcr
  have hdata : lf ∉ ascii "data" ++ colon :: space :: m.data := not_mem_field (by decide) (by decide) hdlf
  have hdata' : cr ∉ ascii "data" ++ colon :: space :: m.data := not_mem_field (by decide) (by decide) hdcr
  have hwrite : write m ++ rest = (ascii "event" ++ colon :: space :: m.type) ++
      lf :: ((ascii "data" ++ colon :: space :: m.data) ++ lf :: (lf :: rest)) := by simp [write]
  have hblank : lines [] false (lf :: rest) = [] :: lines [] false rest := lines_line (l := []) (by simp) (by simp)
  unfold parse
  rw [hwrite, lines_line hevent hevent', lines_line hdata hdata', hblank, List.nil_append, List.nil_append,
    messages_event, messages_data, messages, if_pos rfl]
  simp [dispatch, Buffer.empty, htype]

/-! ## Carriage returns -/

theorem lines_cr (hcur : cr ∉ cur) {bs : Bytes} : ∀ l ∈ lines cur afterCR bs, cr ∉ l := by
  induction bs generalizing cur afterCR with
  | nil => exact nofun
  | cons b bs ih =>
    unfold lines
    split
    · exact List.forall_mem_cons.2 ⟨hcur, ih (by simp)⟩
    · split
      · split
        · exact ih hcur
        · exact List.forall_mem_cons.2 ⟨hcur, ih (by simp)⟩
      · rename_i hb _
        exact ih (by simpa [hcur] using Ne.symm hb)

theorem field_cr (h : cr ∉ l) : cr ∉ (field l).2 := by
  have htail : ∀ {v : Bytes}, cr ∉ v → cr ∉ v.tail := fun hv hmem => hv (List.mem_of_mem_tail hmem)
  have hvalue : cr ∉ (l.dropWhile (· ≠ colon)).tail := htail fun hmem => h ((List.dropWhile_suffix _).subset hmem)
  unfold field
  dsimp only
  split
  · exact htail hvalue
  · exact hvalue

theorem process_cr (hb : cr ∉ b.data) (hl : cr ∉ l) : cr ∉ (process b l).data := by
  unfold process
  dsimp only
  split
  · exact hb
  · split
    · simp only [List.mem_append, List.mem_singleton, not_or]
      exact ⟨⟨hb, field_cr hl⟩, by decide⟩
    · exact hb

theorem messages_cr (hb : cr ∉ b.data) (hls : ∀ l ∈ ls, cr ∉ l) : ∀ m ∈ messages b ls, cr ∉ m.data := by
  induction ls generalizing b with
  | nil => exact nofun
  | cons l ls ih =>
    obtain ⟨hl, hls⟩ := List.forall_mem_cons.1 hls
    unfold messages
    split
    · intro m hm
      rcases List.mem_append.1 hm with hm | hm
      · unfold dispatch at hm
        split at hm
        · cases hm
        · obtain rfl := List.mem_singleton.1 hm
          exact fun hmem => hb (List.dropLast_subset _ hmem)
      · exact ih (by simp [Buffer.empty]) hls m hm
    · exact ih (process_cr hb hl) hls

/-- The data of an event has no carriage return. -/
theorem parse_cr {bs : Bytes} : ∀ m ∈ parse bs, cr ∉ m.data :=
  messages_cr (by simp [Buffer.empty]) (lines_cr (by simp))

end Write

end EventStream
