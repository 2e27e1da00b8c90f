import BuildMetrics.Sink.Basic

/-!
# The sink in memory

Keeps the records it takes. It can be told to refuse all records, the records of a name, or to
be flushed. Every sink that its factory opens keeps its records in the same place.
-/

namespace BuildMetrics

/-- What a sink in memory holds. -/
structure MemorySink where
  /-- the records, in the order in which they were taken -/
  records : List Record
  /-- all records are refused -/
  refusesAll : Bool
  /-- flushing is refused -/
  refusesFlush : Bool
  /-- records with these names are refused -/
  refusedNames : List String
  /-- how often the factory opened it -/
  opened : Nat
  /-- how often it was closed -/
  closed : Nat

namespace MemorySink

/-- A sink that holds nothing and refuses nothing. -/
def empty : MemorySink := ⟨[], false, false, [], 0, 0⟩

/-- The sink refuses a record. -/
def refuses (s : MemorySink) (r : Record) : Bool :=
  s.refusesAll || s.refusedNames.contains r.name

/-- Keeps the record unless it is refused. -/
def send (r : Record) : StateM MemorySink (Except SinkError Unit) := fun s =>
  if s.refuses r then (.error (.rejected r.name), s)
  else (.ok (), { s with records := s.records ++ [r] })

/-- Changes nothing; fails if flushing is refused. -/
def flush : StateM MemorySink (Except SinkError Unit) := fun s =>
  (if s.refusesFlush then .error (.io "flush refused") else .ok (), s)

/-- Counts that the sink was closed. It can be used on. -/
def close : StateM MemorySink (Except SinkError Unit) := fun s =>
  (.ok (), { s with closed := s.closed + 1 })

/-- The sink in memory. -/
def sink : Sink (StateM MemorySink) := ⟨send, flush, close⟩

/-- Counts that the sink was opened. -/
def factory : SinkFactory (StateM MemorySink) := fun _ s =>
  (.ok sink, { s with opened := s.opened + 1 })

/-- Forgets the records, and nothing else. -/
def clear (s : MemorySink) : MemorySink := { s with records := [] }

/-- The first record with a name. -/
def find? (s : MemorySink) (name : String) : Option Record :=
  s.records.find? fun r => r.name = name

end MemorySink

end BuildMetrics
