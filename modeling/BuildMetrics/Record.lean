import BuildMetrics.Decimal.Format
import BuildMetrics.Millis
import BuildMetrics.Tags

/-!
# Metric records

A record is one measured value: a name, the value, a time, the source that measured it, and tags.
-/

namespace BuildMetrics

/-- One measured value. -/
structure Record where
  /-- the dotted name of the metric -/
  name : String
  /-- the value -/
  value : Float
  /-- when it was measured -/
  time : Millis
  /-- who measured it -/
  source : String
  /-- what else is known about it -/
  tags : TagSet

namespace Record

/-- Values have at least one digit behind the point; below a ten-thousandth and from ten
quadrillion on they have an exponent. Of two equally near decimals the one further from zero is
written. -/
def valueFormat : Decimal.Format where
  tie := .up
  leastPoint := -3
  greatestPoint := 16
  nan := "NaN".toList
  infinity := "inf".toList

/-- The text of a value. -/
def valueChars (r : Record) : List Char := valueFormat.chars r.value

/-- Names of this many characters are too long to be sent. -/
def nameLimit : Nat := 255

/-- The name is too long to be sent. -/
def isTooLong (r : Record) : Bool := nameLimit ≤ r.name.length

/-- A tag as people read it, without blanks in its name. -/
def displayTag (key value : String) : String :=
  " " ++ String.ofList (key.toList.map fun c => if c = ' ' then '-' else c) ++ "=" ++ value

/-- The record as people read it; the time is left out. -/
def display (r : Record) : String :=
  r.name ++ " " ++ String.ofList r.valueChars ++ " source=" ++ r.source ++
    String.join (r.tags.entries.map fun (key, value) => displayTag key value)

end Record

end BuildMetrics
