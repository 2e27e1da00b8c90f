import BuildMetrics.Json.Basic
import BuildMetrics.Json.Number
import BuildMetrics.Text.Hex

/-!
# Reading JSON

Strict JSON: nothing but blanks around values, no leading zeros, no trailing commas, no control
characters inside a text. `Draft.ofChars` reads as far as the text is JSON and marks the place
where it stops being that.
-/

namespace BuildMetrics.Json

/-- The blanks of JSON. -/
def isSpace (c : Char) : Bool :=
  c == ' ' || c == '\n' || c == '\t' || c == '\r'

/-- Drops the blanks that come next. -/
def skipSpace (cs : List Char) : List Char := cs.dropWhile isSpace

/-! ## Texts -/

/-- The value of four hexadecimal digits. -/
def hexQuad? (a b c d : Char) : Option Nat := do
  let a ← Text.hexValue? a
  let b ← Text.hexValue? b
  let c ← Text.hexValue? c
  let d ← Text.hexValue? d
  return ((a * 16 + b) * 16 + c) * 16 + d

/-- The code units that open a pair of surrogates. -/
def isHighSurrogate (n : Nat) : Bool := 0xd800 ≤ n && n < 0xdc00

/-- The code units that end a pair of surrogates. -/
def isLowSurrogate (n : Nat) : Bool := 0xdc00 ≤ n && n < 0xe000

/-- The character of a pair of surrogates. -/
def pairChar (high low : Nat) : Char :=
  Char.ofNat (0x10000 + (high - 0xd800) * 0x400 + (low - 0xdc00))

/-- The character that a letter behind a backslash stands for. -/
def shortEscape? (c : Char) : Option Char :=
  if c = '"' then some '"'
  else if c = '\\' then some '\\'
  else if c = '/' then some '/'
  else if c = 'b' then some '\x08'
  else if c = 'f' then some '\x0c'
  else if c = 'n' then some '\n'
  else if c = 'r' then some '\r'
  else if c = 't' then some '\t'
  else none

/-- A text behind its first quote: its characters, absent if half a pair of surrogates is among
them, and what follows the closing quote. There is no text if the quote does not come, or if
something comes that cannot stand in a text. -/
def text? : List Char → Option (Option (List Char) × List Char)
  | [] => none
  | '"' :: rest => some (some [], rest)
  | '\\' :: 'u' :: a :: b :: c :: d :: '\\' :: 'u' :: e :: f :: g :: h :: rest => do
    let high ← hexQuad? a b c d
    if isHighSurrogate high then
      let low ← hexQuad? e f g h
      let (tail, rest') ← text? rest
      if isLowSurrogate low then return (tail.map (pairChar high low :: ·), rest')
      else return (none, rest')
    else
      let (tail, rest') ← text? ('\\' :: 'u' :: e :: f :: g :: h :: rest)
      if isLowSurrogate high then return (none, rest')
      else return (tail.map (Char.ofNat high :: ·), rest')
  | '\\' :: 'u' :: a :: b :: c :: d :: rest => do
    let n ← hexQuad? a b c d
    let (tail, rest') ← text? rest
    if isHighSurrogate n || isLowSurrogate n then return (none, rest')
    else return (tail.map (Char.ofNat n :: ·), rest')
  | '\\' :: c :: rest => do
    let x ← shortEscape? c
    let (tail, rest') ← text? rest
    return (tail.map (x :: ·), rest')
  | c :: rest => do
    if c < ' ' ∨ c = '\\' then none
    let (tail, rest') ← text? rest
    return (tail.map (c :: ·), rest')

/-- The draft of a number. -/
def Draft.ofNumber : Option Number → Draft
  | none => .unreadable
  | some (.integer n) => .integer n
  | some (.float x) => .float x

/-! ## Values

The readers give the draft of what they read and the rest of the text, which is absent once the
text is broken. The first argument bounds the number of steps; it is never used up, because each
character takes at most two of them. -/

mutual

/-- Reads a value. -/
def value : Nat → List Char → Draft × Option (List Char)
  | 0, _ => (.broken, none)
  | fuel + 1, cs =>
    match skipSpace cs with
    | 'n' :: 'u' :: 'l' :: 'l' :: rest => (.null, some rest)
    | 't' :: 'r' :: 'u' :: 'e' :: rest => (.bool true, some rest)
    | 'f' :: 'a' :: 'l' :: 's' :: 'e' :: rest => (.bool false, some rest)
    | '"' :: rest =>
      match text? rest with
      | none => (.broken, none)
      | some (none, rest) => (.unreadable, some rest)
      | some (some s, rest) => (.string (String.ofList s), some rest)
    | '[' :: rest =>
      match skipSpace rest with
      | ']' :: rest => (.array [] true, some rest)
      | rest =>
        let (ds, rest) := items fuel rest
        (.array ds rest.isSome, rest)
    | '\x7b' :: rest =>
      match skipSpace rest with
      | '\x7d' :: rest => (.object [] true, some rest)
      | rest =>
        let (ms, rest) := members fuel rest
        (.object ms rest.isSome, rest)
    | cs =>
      match NumberText.read? cs with
      | none => (.broken, none)
      | some (t, rest) => (.ofNumber t.value?, some rest)

/-- Reads the items of a list up to its closing bracket. -/
def items : Nat → List Char → List Draft × Option (List Char)
  | 0, _ => ([], none)
  | fuel + 1, cs =>
    match value fuel cs with
    | (d, none) => ([d], none)
    | (d, some rest) =>
      match skipSpace rest with
      | ']' :: rest => ([d], some rest)
      | ',' :: rest =>
        let (ds, rest) := items fuel rest
        (d :: ds, rest)
      | _ => ([d], none)

/-- Reads the members of an object up to its closing brace. -/
def members : Nat → List Char → List (Option String × Draft) × Option (List Char)
  | 0, _ => ([], none)
  | fuel + 1, cs =>
    match skipSpace cs with
    | '"' :: rest =>
      match text? rest with
      | none => ([], none)
      | some (key, rest) =>
        let key := key.map String.ofList
        match skipSpace rest with
        | ':' :: rest =>
          match value fuel rest with
          | (d, none) => ([(key, d)], none)
          | (d, some rest) =>
            match skipSpace rest with
            | '\x7d' :: rest => ([(key, d)], some rest)
            | ',' :: rest =>
              let (ms, rest) := members fuel rest
              ((key, d) :: ms, rest)
            | _ => ([(key, d)], none)
        | _ => ([(key, .broken)], none)
    | _ => ([], none)

end

/-- Reads a text. The second part says that nothing but blanks follows the value. -/
def Draft.ofChars (cs : List Char) : Draft × Bool :=
  match value (2 * cs.length + 2) cs with
  | (d, none) => (d, false)
  | (d, some rest) => (d, (skipSpace rest).isEmpty)

end BuildMetrics.Json
