import BuildMetrics.Millis

/-!
# Runs

What a build host knows about a run as a whole.
-/

namespace BuildMetrics.Run

/-- How a run ended. -/
inductive Result where
  /-- it succeeded -/
  | success
  /-- it succeeded, but its tests did not -/
  | unstable
  /-- it failed -/
  | failure
  /-- it was not built -/
  | notBuilt
  /-- it was aborted -/
  | aborted
  deriving DecidableEq, Repr

/-- The result as it is written. -/
def Result.name : Result → String
  | success => "SUCCESS"
  | unstable => "UNSTABLE"
  | failure => "FAILURE"
  | notBuilt => "NOT_BUILT"
  | aborted => "ABORTED"

/-- A parameter of a run. -/
structure Parameter where
  /-- its name -/
  name : String
  /-- its value, if it has one -/
  value : Option String
  deriving DecidableEq, Repr

/-- The value of a parameter, if it has one that is not empty. -/
def Parameter.filled? (p : Parameter) : Option String :=
  p.value.filter fun v => !v.isEmpty

/-- A run as a whole. -/
structure Summary where
  /-- the full name of the job, possibly in form encoding -/
  jobFullName : String
  /-- the number of the run -/
  buildId : String
  /-- how long it took -/
  duration : Millis
  /-- how it ended -/
  result : Result
  /-- its parameters -/
  parameters : List Parameter
  deriving DecidableEq, Repr

/-- The first parameter with a name. -/
def Summary.parameter? (s : Summary) (name : String) : Option Parameter :=
  s.parameters.find? fun p => p.name = name

end BuildMetrics.Run
