import BuildMetrics.Run.Event
import BuildMetrics.Trace.Codec

/-!
# Runs in JSON

The fields of a run as a whole stand among those of the event that reports it.
-/

namespace BuildMetrics.Run

open Json Json.Codec

/-- A result is a word. -/
def Result.codec : Codec Result :=
  word Result.name [.success, .unstable, .failure, .notBuilt, .aborted]

/-- A parameter is a record. -/
def Parameter.codec : Codec Parameter :=
  record
    (.cons (required "name" string) <|
      .cons (defaulted "value" string.option none) .nil)
    (fun p => (p.name, p.value, ()))
    (fun (name, value, ()) => ⟨name, value⟩)

/-- The fields of a run as a whole. -/
def Summary.fields : Fields [String, String, Millis, Result, List Parameter] :=
  .cons (required "job_full_name" string) <|
    .cons (required "build_id" string) <|
    .cons (required "duration_ms" int64) <|
    .cons (required "result" Result.codec) <|
    .cons (defaulted "parameters" Parameter.codec.list []) .nil

/-- A run as its fields. -/
def Summary.toRow (s : Summary) : Row [String, String, Millis, Result, List Parameter] :=
  (s.jobFullName, s.buildId, s.duration, s.result, s.parameters, ())

/-- The run of its fields. -/
def Summary.ofRow : Row [String, String, Millis, Result, List Parameter] → Summary
  | (jobFullName, buildId, duration, result, parameters, ()) =>
    ⟨jobFullName, buildId, duration, result, parameters⟩

/-- A run as a whole is a record. -/
def Summary.codec : Codec Summary := record Summary.fields Summary.toRow Summary.ofRow

/-- An outcome is a word. -/
def TestOutcome.codec : Codec TestOutcome := word TestOutcome.name [.failed, .skipped, .passed]

/-- A test is a record. -/
def TestCase.codec : Codec TestCase :=
  record
    (.cons (required "full_name" string) <|
      .cons (defaulted "duration_secs" float 0) .nil)
    (fun t => (t.fullName, t.seconds, ()))
    (fun (fullName, seconds, ()) => ⟨fullName, seconds⟩)

/-- The tests of a run are a record; what is not there is none. -/
def TestReport.codec : Codec TestReport :=
  record
    (.cons (defaulted "total" uint64 0) <|
      .cons (defaulted "failed" uint64 0) <|
      .cons (defaulted "skipped" uint64 0) <|
      .cons (defaulted "duration_secs" float 0) <|
      .cons (defaulted "failed_tests" TestCase.codec.list []) <|
      .cons (defaulted "skipped_tests" TestCase.codec.list []) <|
      .cons (defaulted "passed_tests" TestCase.codec.list []) .nil)
    (fun r =>
      (r.total, r.failed, r.skipped, r.seconds, r.failedTests, r.skippedTests, r.passedTests, ()))
    (fun (total, failed, skipped, seconds, failedTests, skippedTests, passedTests, ()) =>
      ⟨total, failed, skipped, seconds, failedTests, skippedTests, passedTests⟩)

/-- A category is a word. -/
def CoverageCategory.codec : Codec CoverageCategory :=
  word CoverageCategory.name CoverageCategory.all

/-- The coverage of a category is a record. -/
def CoverageEntry.codec : Codec CoverageEntry :=
  record
    (.cons (required "category" CoverageCategory.codec) <|
      .cons (required "percentage" float) <|
      .cons (defaulted "minimum" float 0) <|
      .cons (defaulted "maximum" float 0) <|
      .cons (defaulted "covered" uint64 0) <|
      .cons (defaulted "total" uint64 0) .nil)
    (fun e => (e.category, e.percentage, e.minimum, e.maximum, e.covered, e.total, ()))
    (fun (category, percentage, minimum, maximum, covered, total, ()) =>
      ⟨category, percentage, minimum, maximum, covered, total⟩)

/-- The coverage of a run is a record. -/
def CoverageReport.codec : Codec CoverageReport :=
  record (.cons (defaulted "entries" CoverageEntry.codec.list []) .nil)
    (fun r => (r.entries, ())) (fun (entries, ()) => ⟨entries⟩)

/-- An event is the record of its run with three more fields. -/
def Event.codec : Codec Event :=
  flat .nil Summary.fields
    (.cons (optional "trace" Trace.Node.codec.list) <|
      .cons (optional "tests" TestReport.codec) <|
      .cons (optional "coverage" CoverageReport.codec) .nil)
    (fun e => ((), e.run.toRow, (e.trace, e.tests, e.coverage, ())))
    (fun ((), run, (trace, tests, coverage, ())) => ⟨.ofRow run, trace, tests, coverage⟩)

/-- A timed step is a record. -/
def StepEvent.codec : Codec StepEvent :=
  record
    (.cons (required "job_name" string) <|
      .cons (required "build_number" string) <|
      .cons (defaulted "metric_name" string "") <|
      .cons (required "start_ms" int64) <|
      .cons (required "end_ms" int64) .nil)
    (fun e => (e.jobName, e.buildNumber, e.metricName, e.startTime, e.endTime, ()))
    (fun (jobName, buildNumber, metricName, startTime, endTime, ()) =>
      ⟨jobName, buildNumber, metricName, startTime, endTime⟩)

end BuildMetrics.Run
