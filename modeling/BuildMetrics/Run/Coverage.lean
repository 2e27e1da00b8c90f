/-!
# Code coverage

How much of the code the tests of a run reached, by the kind of thing that is counted.
-/

namespace BuildMetrics.Run

/-- What is counted. -/
inductive CoverageCategory where
  /-- instructions -/
  | instructions
  /-- branches -/
  | branch
  /-- paths -/
  | complexity
  /-- lines -/
  | line
  /-- methods -/
  | method
  /-- classes -/
  | classes
  deriving DecidableEq, Repr

namespace CoverageCategory

/-- All categories. -/
def all : List CoverageCategory := [instructions, branch, complexity, line, method, classes]

/-- The category as it is written. -/
def name : CoverageCategory → String
  | instructions => "instructions"
  | branch => "branch"
  | complexity => "complexity"
  | line => "line"
  | method => "method"
  | classes => "class"

/-- The segment of a category in a metric path. -/
def segment (c : CoverageCategory) : String := c.name ++ "-coverage"

end CoverageCategory

/-- The coverage of one category. -/
structure CoverageEntry where
  /-- what is counted -/
  category : CoverageCategory
  /-- how much of it was reached, in percent -/
  percentage : Float
  /-- the least percentage that is asked for -/
  minimum : Float
  /-- the percentage that is aimed at -/
  maximum : Float
  /-- how many were reached -/
  covered : UInt64
  /-- how many there are -/
  total : UInt64

/-- The coverage of a run. -/
structure CoverageReport where
  /-- the coverage of each category -/
  entries : List CoverageEntry

/-- The first entry of a category. -/
def CoverageReport.get? (r : CoverageReport) (c : CoverageCategory) : Option CoverageEntry :=
  r.entries.find? fun e => e.category = c

end BuildMetrics.Run
