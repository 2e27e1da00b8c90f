/-!
# Test results

The tests of a run: how many there were, and the single tests by outcome.
-/

namespace BuildMetrics.Run

/-- How a test ended. -/
inductive TestOutcome where
  /-- it failed -/
  | failed
  /-- it was left out -/
  | skipped
  /-- it passed -/
  | passed
  deriving DecidableEq, Repr

/-- The outcome as it is written. -/
def TestOutcome.name : TestOutcome → String
  | failed => "Failed"
  | skipped => "Skipped"
  | passed => "Passed"

/-- A test. -/
structure TestCase where
  /-- its full name, with its arguments in brackets behind it -/
  fullName : String
  /-- how long it took, in seconds -/
  seconds : Float

/-- The tests of a run. -/
structure TestReport where
  /-- how many there were -/
  total : UInt64
  /-- how many failed -/
  failed : UInt64
  /-- how many were left out -/
  skipped : UInt64
  /-- how long they took, in seconds -/
  seconds : Float
  /-- the tests that failed -/
  failedTests : List TestCase
  /-- the tests that were left out -/
  skippedTests : List TestCase
  /-- the tests that passed -/
  passedTests : List TestCase

namespace TestReport

/-- How many passed: what the others leave, and never less than none. -/
def passed (r : TestReport) : UInt64 :=
  UInt64.ofNat (r.total.toNat - r.failed.toNat - r.skipped.toNat)

/-- The single tests: those that failed, then those left out, then those that passed. -/
def outcomes (r : TestReport) : List (TestOutcome × TestCase) :=
  r.failedTests.map (.failed, ·) ++ r.skippedTests.map (.skipped, ·) ++
    r.passedTests.map (.passed, ·)

end TestReport

end BuildMetrics.Run
