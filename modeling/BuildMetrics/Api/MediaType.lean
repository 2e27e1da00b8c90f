/-!
# Media types

A request says what its body is by a media type: two names with a slash between them, and
parameters behind semicolons. Only the names matter here, but parameters that are not well formed
spoil the whole.
-/

namespace BuildMetrics.Api

/-- The characters of a name. -/
def isTokenChar (c : Char) : Bool :=
  ('a' ≤ c && c ≤ 'z') || ('A' ≤ c && c ≤ 'Z') || ('0' ≤ c && c ≤ '9') ||
    "!#$%&'*+-.^_`|~".toList.contains c

/-- The characters between quotes. -/
def isQuotedChar (c : Char) : Bool := ' ' ≤ c && c ≤ '~'

/-- Where in its parameters a media type has been read to. -/
inductive ParameterState where
  /-- a parameter may begin -/
  | start
  /-- in the name of a parameter -/
  | name
  /-- behind the equals sign -/
  | value
  /-- in a value without quotes -/
  | bare
  /-- behind the quote that opens a value -/
  | opened
  /-- in a value between quotes -/
  | quoted
  /-- behind the quote that closes a value -/
  | closed
  deriving DecidableEq, Repr

namespace ParameterState

/-- The state behind one more character, if it can stand there. A value between quotes has at
least one character, whatever it is. -/
def next? : ParameterState → Char → Option ParameterState
  | start, c => if c = ' ' then some start else if isTokenChar c then some name else none
  | name, c => if c = '=' then some value else if isTokenChar c then some name else none
  | value, c => if c = '"' then some opened else if isTokenChar c then some bare else none
  | bare, c => if c = ';' then some start else if isTokenChar c then some bare else none
  | opened, c => if isQuotedChar c then some quoted else none
  | quoted, c => if c = '"' then some closed else if isQuotedChar c then some quoted else none
  | closed, c => if c = ';' then some start else if c = ' ' then some closed else none

/-- The parameters may end here. -/
def isFinal : ParameterState → Bool
  | start | value | bare | closed => true
  | name | opened | quoted => false

/-- Text behind a state completes the parameters. -/
def accepts : ParameterState → List Char → Bool
  | s, [] => s.isFinal
  | s, c :: cs =>
    match s.next? c with
    | none => false
    | some s => s.accepts cs

end ParameterState

/-- The name behind the last plus sign that has something in front of it, and what is in front of
it. -/
def splitStructure (cs : List Char) : List Char × Option (List Char) :=
  if cs.tail.contains '+' then
    let last := (cs.reverse.takeWhile (· ≠ '+')).reverse
    (cs.take (cs.length - last.length - 1), some last)
  else (cs, none)

/-- The second name says that the body is JSON, by itself or as the structure of something
else. -/
def isJsonSubtype (cs : List Char) : Bool :=
  let (base, structured) := splitStructure (cs.map Char.toLower)
  base = "json".toList || structured = some "json".toList

/-- The media type says that the body is JSON. -/
def isJsonType (s : String) : Bool :=
  let (main, rest) := s.toList.span isTokenChar
  match rest with
  | '/' :: rest =>
    let (sub, rest) := rest.span isTokenChar
    main.map Char.toLower = "application".toList && isJsonSubtype sub &&
      match rest with
      | [] => true
      | c :: rest => c = ';' && ParameterState.start.accepts rest
  | _ => false

end BuildMetrics.Api
