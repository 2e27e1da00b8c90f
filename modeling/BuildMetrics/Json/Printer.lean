import BuildMetrics.Decimal.Format
import BuildMetrics.Json.Basic
import BuildMetrics.Text.Hex

/-!
# Writing JSON

The compact form: no blanks, members in their order. In a text only the quote, the backslash
and the control characters are escaped.
-/

namespace BuildMetrics.Json

/-- JSON writes a double positionally down to five places behind the point; of two equally near
decimals the even one is written. A value that is no number is written as `null`. -/
def floatFormat : Decimal.Format where
  tie := .even
  leastPoint := -4
  greatestPoint := 16
  nan := "null".toList
  infinity := "null".toList

/-- A number, or `null` for a double that is none. -/
def floatChars (x : Float) : List Char :=
  if x.isFinite then floatFormat.chars x else floatFormat.nan

/-- A character as it stands in a written text. -/
def escapeChar (c : Char) : List Char :=
  if c = '"' then ['\\', '"']
  else if c = '\\' then ['\\', '\\']
  else if c = '\x08' then ['\\', 'b']
  else if c = '\t' then ['\\', 't']
  else if c = '\n' then ['\\', 'n']
  else if c = '\x0c' then ['\\', 'f']
  else if c = '\r' then ['\\', 'r']
  else if c < ' ' then
    ['\\', 'u', '0', '0', Text.hexDigit (c.toNat / 16), Text.hexDigit (c.toNat % 16)]
  else [c]

/-- A text between quotes. -/
def stringChars (s : String) : List Char :=
  '"' :: (s.toList.flatMap escapeChar ++ ['"'])

mutual

/-- The characters of a written value. -/
def chars : Json → List Char
  | .null => "null".toList
  | .bool true => "true".toList
  | .bool false => "false".toList
  | .integer n => Decimal.intChars n
  | .float x => floatChars x
  | .string s => stringChars s
  | .array items => '[' :: (itemsChars items ++ [']'])
  | .object members => '\x7b' :: (membersChars members ++ ['\x7d'])

/-- The items of a list, with commas between them. -/
def itemsChars : List Json → List Char
  | [] => []
  | [j] => chars j
  | j :: js => chars j ++ ',' :: itemsChars js

/-- The members of an object, with commas between them. -/
def membersChars : List (String × Json) → List Char
  | [] => []
  | [(k, j)] => stringChars k ++ ':' :: chars j
  | (k, j) :: ms => stringChars k ++ ':' :: (chars j ++ ',' :: membersChars ms)

end

/-- The text of a value. -/
def print (j : Json) : String := String.ofList (chars j)

end BuildMetrics.Json
