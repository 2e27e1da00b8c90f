import BuildMetrics.Report.Passes
import BuildMetrics.Sink.Basic

/-!
# Sending records

Records are handed to a sink one by one. A record whose name is too long is dropped, a record
that the sink does not take has failed, and neither keeps the next record from being sent. A
report of a run sends all passes in their order and flushes the sink once at the end.
-/

namespace BuildMetrics

open Run

/-- What became of some records. -/
structure Emission where
  /-- how many the sink took -/
  sent : Nat
  /-- how many were not sent for their names -/
  dropped : Nat
  /-- how many the sink did not take -/
  failed : Nat
  deriving DecidableEq, Repr

namespace Emission

/-- No records. -/
def none : Emission := ⟨0, 0, 0⟩

/-- A record that the sink took. -/
def ofSent : Emission := ⟨1, 0, 0⟩

/-- A record that was not sent for its name. -/
def ofDropped : Emission := ⟨0, 1, 0⟩

/-- A record that the sink did not take. -/
def ofFailed : Emission := ⟨0, 0, 1⟩

/-- How many records there were. -/
def attempted (e : Emission) : Nat := e.sent + e.dropped + e.failed

/-- What became of the records of both. -/
def add (e f : Emission) : Emission :=
  ⟨e.sent + f.sent, e.dropped + f.dropped, e.failed + f.failed⟩

end Emission

variable {m : Type → Type} [Monad m]

/-- Sends a record, unless its name is too long. -/
def emitOne (sink : Sink m) (r : Record) : m Emission := do
  if r.isTooLong then return .ofDropped
  match ← sink.send r with
  | .ok () => return .ofSent
  | .error _ => return .ofFailed

/-- Sends records in their order. -/
def emit (sink : Sink m) : List Record → m Emission
  | [] => return .none
  | r :: rs => do
    let first ← emitOne sink r
    let rest ← emit sink rs
    return first.add rest

/-- What became of the records of a pass. -/
structure PassSummary where
  /-- the pass -/
  pass : PassKind
  /-- what became of its records -/
  emission : Emission
  /-- why it stopped early, if it did -/
  error : Option String
  deriving DecidableEq, Repr

/-- What became of the records of a run. -/
structure RunReport where
  /-- the segment of the job -/
  job : String
  /-- the number of the run -/
  buildId : String
  /-- the passes that applied -/
  passes : List PassSummary
  /-- why the flush at the end failed, if it did; then records that were sent may be lost -/
  flushError : Option String
  deriving DecidableEq, Repr

/-- What became of the records of all passes. -/
def RunReport.totals (r : RunReport) : Emission :=
  (r.passes.map PassSummary.emission).foldl Emission.add .none

/-- Sends the records of a pass. -/
def emitPass (sink : Sink m) (p : PassRecords) : m PassSummary := do
  return ⟨p.pass, ← emit sink p.records, p.error.map Trace.TraceError.message⟩

/-- Sends the records of each pass. -/
def emitPasses (sink : Sink m) : List PassRecords → m (List PassSummary)
  | [] => return []
  | p :: ps => do
    let first ← emitPass sink p
    let rest ← emitPasses sink ps
    return first :: rest

/-- The message of an outcome that is an error. -/
def SinkError.message? : Except SinkError Unit → Option String
  | .ok () => Option.none
  | .error e => some e.message

/-- Sends the records of a run, then flushes the sink. -/
def reportRun (sink : Sink m) (config : Config) (now : Millis) (event : Event)
    (property : Option JobProperty) : m RunReport := do
  let built := runRecords config now event property
  let passes ← emitPasses sink built.passes
  let flushed ← sink.flush
  return ⟨built.job, built.buildId, passes, SinkError.message? flushed⟩

/-- Sends the record of a timed step. -/
def reportStep (sink : Sink m) (config : Config) (now : Millis) (event : StepEvent) :
    m Emission :=
  emit sink [stepRecord config now event]

end BuildMetrics
