import BuildMetrics.Run.Basic
import BuildMetrics.Run.Coverage
import BuildMetrics.Run.Tests
import BuildMetrics.Trace.Node

/-!
# What a build host reports

A host reports a run once it is over, and a timed step while the run goes on.
-/

namespace BuildMetrics.Run

/-- A run that is over. -/
structure Event where
  /-- the run as a whole -/
  run : Summary
  /-- what was recorded while it went on -/
  trace : Option (List Trace.Node)
  /-- its tests -/
  tests : Option TestReport
  /-- its coverage -/
  coverage : Option CoverageReport

/-- A timed step that is over. -/
structure StepEvent where
  /-- the name of the job as people see it -/
  jobName : String
  /-- the number of the run -/
  buildNumber : String
  /-- the name of the step, possibly empty -/
  metricName : String
  /-- when it began -/
  startTime : Millis
  /-- when it ended -/
  endTime : Millis
  deriving DecidableEq, Repr

/-- How long the step took. -/
def StepEvent.duration (e : StepEvent) : Millis := Millis.since e.endTime e.startTime

end BuildMetrics.Run
