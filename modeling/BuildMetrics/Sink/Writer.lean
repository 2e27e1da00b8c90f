import BuildMetrics.Record.Line
import BuildMetrics.Sink.Basic
import BuildMetrics.Text.Utf8

/-!
# The sink that writes lines

Each record becomes a line on a writer. A writer may have room for only so many bytes: what does
not fit any more is cut off, and a write that finds no room at all fails.
-/

namespace BuildMetrics

/-- Something that bytes can be written to. -/
structure Writer where
  /-- how many bytes it takes in all, if that is bounded -/
  limit : Option Nat
  /-- flushing fails -/
  failsFlush : Bool
  /-- what has been written -/
  bytes : List UInt8

namespace Writer

/-- How many of `n` bytes still fit. -/
def room (w : Writer) (n : Nat) : Nat :=
  match w.limit with
  | none => n
  | some limit => min n (limit - w.bytes.length)

/-- Writes the bytes that fit, and fails if these are not all. -/
def write (bytes : List UInt8) : StateM Writer (Except SinkError Unit) := fun w =>
  let fits := w.room bytes.length
  (if fits = bytes.length then .ok () else .error (.io "writer full"),
    { w with bytes := w.bytes ++ bytes.take fits })

/-- Flushes the writer. -/
def flush : StateM Writer (Except SinkError Unit) := fun w =>
  (if w.failsFlush then .error (.io "flush refused") else .ok (), w)

end Writer

/-- A writer with the number of lines that were written to it. -/
structure LineWriter where
  /-- the writer -/
  writer : Writer
  /-- how many lines are complete -/
  lines : Nat

namespace LineWriter

/-- Nothing has been written yet. -/
def ofWriter (w : Writer) : LineWriter := ⟨w, 0⟩

/-- Works on the writer and leaves the lines as they are. -/
def onWriter (action : StateM Writer α) : StateM LineWriter α := fun s =>
  let (a, w) := action s.writer
  (a, { s with writer := w })

/-- Writes the line of a record, then the newline. -/
def send (r : Record) : StateM LineWriter (Except SinkError Unit) := do
  match ← onWriter (Writer.write (Text.utf8Bytes r.line)) with
  | .error e => return .error e
  | .ok () =>
    match ← onWriter (Writer.write (Text.utf8Bytes "\n")) with
    | .error e => return .error e
    | .ok () =>
      modify fun s => { s with lines := s.lines + 1 }
      return .ok ()

/-- The sink that writes lines. To close it is to flush it. -/
def sink : Sink (StateM LineWriter) := ⟨send, onWriter Writer.flush, onWriter Writer.flush⟩

end LineWriter

end BuildMetrics
