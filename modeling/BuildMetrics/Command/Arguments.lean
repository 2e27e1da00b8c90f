/-!
# Arguments

The words behind the name of a command: options, which have a name, and plain words, which have a
place. A long option begins with two hyphens and takes its value behind an equals sign or from
the next word; a short one begins with one hyphen and takes its value at once or from the next
word. Behind two hyphens alone every word is plain. The words are read from left to right, and
asking for help ends the reading.
-/

namespace BuildMetrics.Command

/-- Why the words do not give a command. -/
inductive Interruption where
  /-- help was asked for -/
  | help
  /-- the words cannot be understood -/
  | usage
  deriving DecidableEq, Repr

/-- An option. -/
structure Flag where
  /-- its long name -/
  long : String
  /-- its short name, if it has one -/
  short : Option Char
  /-- the values that it takes, if it takes any -/
  accepts : Option (String → Bool)

/-- What may stand behind the name of a command. -/
structure Grammar where
  /-- the options, in any order -/
  flags : List Flag
  /-- which plain words may stand in each place -/
  places : List (String → Bool)

/-- What stands behind the name of a command. -/
structure Given where
  /-- the long names of the options with their values -/
  options : List (String × String)
  /-- the plain words -/
  words : List String
  deriving DecidableEq, Repr

namespace Given

/-- Nothing. -/
def none : Given := ⟨[], []⟩

/-- The value of an option, if it is given. -/
def value? (g : Given) (long : String) : Option String := g.options.lookup long

/-- An option is given. -/
def has (g : Given) (long : String) : Bool := (g.value? long).isSome

/-- Adds an option that is not given yet. -/
def addOption (g : Given) (long value : String) : Except Interruption Given :=
  if g.has long then .error .usage else .ok { g with options := (long, value) :: g.options }

/-- Adds a plain word in the next place. -/
def addWord (g : Given) (places : List (String → Bool)) (word : String) :
    Except Interruption Given :=
  match places[g.words.length]? with
  | some accepts =>
    if accepts word then .ok { g with words := g.words ++ [word] } else .error .usage
  | Option.none => .error .usage

end Given

/-- How a word reads. -/
inductive Shape where
  /-- two hyphens alone -/
  | escape
  /-- a long option, with the value behind its equals sign -/
  | long (name : String) (value : Option String)
  /-- short options behind one hyphen -/
  | short (letters : List Char)
  /-- a plain word, such as one hyphen alone -/
  | plain

/-- Tells how a word reads. -/
def Shape.ofWord (word : String) : Shape :=
  match word.toList with
  | '-' :: '-' :: [] => .escape
  | '-' :: '-' :: rest =>
    let name := rest.takeWhile (· ≠ '=')
    match rest.dropWhile (· ≠ '=') with
    | [] => .long (String.ofList name) none
    | _ :: value => .long (String.ofList name) (some (String.ofList value))
  | '-' :: c :: rest => .short (c :: rest)
  | _ => .plain

namespace Grammar

/-- The option with a long name. -/
def long? (g : Grammar) (name : String) : Option Flag := g.flags.find? fun f => f.long = name

/-- The option with a short name. -/
def short? (g : Grammar) (letter : Char) : Option Flag :=
  g.flags.find? fun f => f.short = some letter

/-- An option without a value, or one whose value is still to come. -/
def bare (f : Flag) (given : Given) : Except Interruption (Option Flag × Given) :=
  match f.accepts with
  | some _ => .ok (some f, given)
  | none => (given.addOption f.long "").map (none, ·)

/-- An option with its value. -/
def filled (f : Flag) (value : String) (given : Given) :
    Except Interruption (Option Flag × Given) :=
  match f.accepts with
  | some accepts =>
    if accepts value then (given.addOption f.long value).map (none, ·) else .error .usage
  | none => .error .usage

/-- The value behind a short name; an equals sign in front of it does not count. -/
def attached : List Char → String
  | '=' :: cs => String.ofList cs
  | cs => String.ofList cs

/-- Reads short options behind one hyphen. -/
def readShort (g : Grammar) : List Char → Given → Except Interruption (Option Flag × Given)
  | [], given => .ok (none, given)
  | c :: cs, given =>
    if c = 'h' then .error .help
    else
      match g.short? c with
      | none => .error .usage
      | some f =>
        if cs.isEmpty then bare f given
        else if f.accepts.isSome then filled f (attached cs) given
        else do
          let (_, given) ← bare f given
          g.readShort cs given

/-- Reads one word. If it is an option whose value is still to come, that option comes with the
outcome. -/
def readWord (g : Grammar) (word : String) (given : Given) :
    Except Interruption (Option Flag × Given) :=
  match Shape.ofWord word with
  | .escape => .ok (none, given)
  | .plain => (given.addWord g.places word).map (none, ·)
  | .short letters => g.readShort letters given
  | .long "help" none => .error .help
  | .long name value =>
    match g.long? name, value with
    | none, _ => .error .usage
    | some f, some value => filled f value given
    | some f, none => bare f given

/-- Reads words that are all plain. -/
def readPlain (g : Grammar) : List String → Given → Except Interruption Given
  | [], given => .ok given
  | word :: words, given => do g.readPlain words (← given.addWord g.places word)

/-- Reads words. The first argument is the option whose value is to come; only a plain word can be
that. -/
def read (g : Grammar) : Option Flag → List String → Given → Except Interruption Given
  | none, [], given => .ok given
  | some _, [], _ => .error .usage
  | some f, word :: words, given =>
    match Shape.ofWord word with
    | .plain => do
      let (waiting, given) ← filled f word given
      g.read waiting words given
    | _ => .error .usage
  | none, word :: words, given =>
    match Shape.ofWord word with
    | .escape => g.readPlain words given
    | _ => do
      let (waiting, given) ← g.readWord word given
      g.read waiting words given

/-- What the words behind the name of a command give. -/
def parse (g : Grammar) (words : List String) : Except Interruption Given :=
  g.read none words .none

end Grammar

end BuildMetrics.Command
