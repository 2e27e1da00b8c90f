import BuildMetrics.Command.Arguments
import BuildMetrics.Decimal.Digits
import BuildMetrics.Name

/-!
# Commands

There are three commands: to print the records of a run, to send them to a proxy, and to clean a
name.
-/

namespace BuildMetrics

namespace Command

/-- The kinds of names that can be cleaned. -/
inductive NameKind where
  /-- the name of a job, a stage or a branch -/
  | category
  /-- a name whose dots are levels -/
  | full
  /-- the name of a test -/
  | test
  /-- the name of a timed step -/
  | step
  deriving DecidableEq, Repr

namespace NameKind

/-- All kinds. -/
def all : List NameKind := [category, full, test, step]

/-- The word for a kind. -/
def word : NameKind → String
  | category => "category"
  | full => "full"
  | test => "test"
  | step => "step"

/-- The kind that a word stands for. -/
def ofWord? (s : String) : Option NameKind := all.find? fun k => k.word = s

/-- Cleans a name. -/
def clean : NameKind → String → String
  | category => Name.category
  | full => Name.dotted
  | test => Name.test
  | step => Name.step

end NameKind

/-- The files that a run is read from. -/
structure RunFiles where
  /-- the event of the run -/
  event : String
  /-- the configuration; the usual one if there is no file -/
  config : Option String
  /-- what the job asks for -/
  property : Option String
  deriving DecidableEq, Repr

end Command

/-- What can be asked for. -/
inductive Command where
  /-- print the records of a run, as lines of the proxy if `wire` is set -/
  | render (files : Command.RunFiles) (wire : Bool)
  /-- send the records of a run; host and port take the place of those in the configuration -/
  | send (files : Command.RunFiles) (host : Option String) (port : Option UInt32)
  /-- clean a name -/
  | sanitize (kind : Command.NameKind) (name : String)
  deriving DecidableEq, Repr

namespace Command

/-- A path is not empty. -/
def isPath (s : String) : Bool := !s.isEmpty

/-- The number that a text of digits, possibly with a sign, stands for, if it is one of 32
bits. -/
def portNumber? (s : String) : Option UInt32 :=
  let (negative, ds) :=
    match s.toList with
    | '-' :: ds => (true, ds)
    | '+' :: ds => (false, ds)
    | ds => (false, ds)
  if ds.isEmpty || !ds.all Char.isDigit then none
  else
    let n := Decimal.ofDigits ds
    if (negative && n ≠ 0) || 4294967296 ≤ n then none else some (UInt32.ofNat n)

/-- The options that name the files of a run. -/
def fileFlags : List Flag :=
  [⟨"event", some 'e', some isPath⟩, ⟨"config", some 'c', some isPath⟩,
    ⟨"property", none, some isPath⟩]

/-- What may follow `render`. -/
def renderGrammar : Grammar := ⟨fileFlags ++ [⟨"wire", none, none⟩], []⟩

/-- What may follow `send`. -/
def sendGrammar : Grammar :=
  ⟨fileFlags ++
    [⟨"host", none, some fun _ => true⟩, ⟨"port", none, some fun s => (portNumber? s).isSome⟩], []⟩

/-- What has to follow `sanitize`. -/
def sanitizeGrammar : Grammar := ⟨[], [fun s => (NameKind.ofWord? s).isSome, fun _ => true]⟩

/-- The files of a run; the event has to be there. -/
def RunFiles.ofGiven (g : Given) : Except Interruption RunFiles :=
  match g.value? "event" with
  | some event => .ok ⟨event, g.value? "config", g.value? "property"⟩
  | none => .error .usage

/-- The command of what follows `render`. -/
def ofRender (words : List String) : Except Interruption Command := do
  let g ← renderGrammar.parse words
  return .render (← RunFiles.ofGiven g) (g.has "wire")

/-- The command of what follows `send`. -/
def ofSend (words : List String) : Except Interruption Command := do
  let g ← sendGrammar.parse words
  return .send (← RunFiles.ofGiven g) (g.value? "host") ((g.value? "port").bind portNumber?)

/-- The command of what follows `sanitize`. -/
def ofSanitize (words : List String) : Except Interruption Command := do
  let g ← sanitizeGrammar.parse words
  match g.words with
  | [kind, name] =>
    match NameKind.ofWord? kind with
    | some kind => return .sanitize kind name
    | none => throw .usage
  | _ => throw .usage

/-- Help is asked for on nothing, or on one command. -/
def ofHelp : List String → Except Interruption Command
  | [] => .error .help
  | [topic] =>
    if ["render", "send", "sanitize", "help"].contains topic then .error .help else .error .usage
  | _ => .error .usage

/-- The command that the words ask for. -/
def ofWords : List String → Except Interruption Command
  | [] => .error .usage
  | word :: words =>
    match Shape.ofWord word with
    | .short ('h' :: _) => .error .help
    | .long "help" none => .error .help
    | .plain =>
      if word = "render" then ofRender words
      else if word = "send" then ofSend words
      else if word = "sanitize" then ofSanitize words
      else if word = "help" then ofHelp words
      else .error .usage
    | _ => .error .usage

end Command

end BuildMetrics
