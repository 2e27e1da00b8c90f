import BuildMetrics.Text.Lowercase
import BuildMetrics.Text.PercentEscape

/-!
# Names in a metric path

A metric name is a path of segments joined by dots. Jobs, stages, branches, tests and timed
steps carry names that people chose, so each of them is cleaned before it becomes a part of
a path: letters become lowercase, and every character that the kind of segment does not keep
becomes an underscore. An empty name becomes the segment `null`, so a path never has an
empty part.
-/

namespace BuildMetrics.Name

/-- The segment of an empty name. -/
def null : String := "null"

/-- The characters of a segment that may hold several levels separated by slashes. -/
def isCategoryChar (c : Char) : Bool :=
  ('a' ≤ c && c ≤ 'z') || ('0' ≤ c && c ≤ '9') || c == '/' || c == '_' || c == '-'

/-- The characters of a name whose dots are levels of the path. -/
def isDottedChar (c : Char) : Bool :=
  isCategoryChar c || c == '.'

/-- The characters of a timed step's segment. -/
def isStepChar (c : Char) : Bool :=
  ('a' ≤ c && c ≤ 'z') || ('0' ≤ c && c ≤ '9') || c == '_' || c == '-'

/-- The character itself if it is kept, else an underscore. -/
def keepOr (keeps : Char → Bool) (c : Char) : Char :=
  if keeps c then c else '_'

/-- The lowercase characters of a name, those that are not kept replaced. -/
def cleanChars (keeps : Char → Bool) (cs : List Char) : List Char :=
  (cs.flatMap Text.lowercase).map (keepOr keeps)

/-- Cleans a name; an empty name becomes `null`. -/
def clean (keeps : Char → Bool) (name : String) : String :=
  if name.isEmpty then null else String.ofList (cleanChars keeps name.toList)

/-- The segment of a stage, a branch or a decoded job name. Dots are not kept. -/
def category (name : String) : String :=
  clean isCategoryChar name

/-- A name whose dots stay levels of the path. -/
def dotted (name : String) : String :=
  clean isDottedChar name

/-- Turns brackets into dots. -/
def unbracket (c : Char) : Char :=
  if c = '[' ∨ c = ']' then '.' else c

/-- Keeps one dot of each run of dots. -/
def collapseDots : List Char → List Char
  | [] => []
  | c :: cs => if c = '.' ∧ cs.head? = some '.' then collapseDots cs else c :: collapseDots cs

/-- Drops a dot at the end. -/
def dropLastDot (cs : List Char) : List Char :=
  if cs.getLast? = some '.' then cs.dropLast else cs

/-- The path of a test. The arguments of a parameterized test, written in brackets after its
name, become levels of their own. -/
def test (name : String) : String :=
  if name.toList.getLast? = some ']' then
    dotted (String.ofList (dropLastDot (collapseDots (name.toList.map unbracket))))
  else dotted name

/-- The segment of a timed step, whose name may be in form encoding. -/
def step (name : String) : String :=
  clean isStepChar (Text.decodeForm name)

/-- The segment of a job, whose full name may be in form encoding. -/
def job (fullName : String) : String :=
  category (Text.decodeForm fullName)

end BuildMetrics.Name
