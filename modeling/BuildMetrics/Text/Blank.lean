/-!
# Blank characters and lines

The characters with the Unicode property `White_Space`, the two ends of a text without
them, and the lines of a text.
-/

namespace BuildMetrics.Text

/-- The characters with the Unicode property `White_Space`. -/
def isBlank (c : Char) : Bool :=
  ('\t' ≤ c && c ≤ '\r') || c == ' ' || c == '\u0085' || c == '\u00a0' || c == '\u1680' ||
    ('\u2000' ≤ c && c ≤ '\u200a') || c == '\u2028' || c == '\u2029' || c == '\u202f' ||
    c == '\u205f' || c == '\u3000'

/-- The characters without the blank ones at either end. -/
def trimChars (cs : List Char) : List Char :=
  ((cs.dropWhile isBlank).reverse.dropWhile isBlank).reverse

/-- The text without the blank characters at either end. -/
def trim (s : String) : String :=
  String.ofList (trimChars s.toList)

/-- Cuts at every newline; the newlines themselves are dropped, and so is the carriage
return in front of one. A text that ends in a newline has no line after it. -/
def lineChars : List Char → List (List Char)
  | [] => []
  | c :: cs =>
    if c = '\n' then [] :: lineChars cs
    else if c = '\r' ∧ cs.head? = some '\n' then lineChars cs
    else
      match lineChars cs with
      | [] => [[c]]
      | line :: rest => (c :: line) :: rest

/-- The lines of a text. -/
def lines (s : String) : List String :=
  (lineChars s.toList).map String.ofList

end BuildMetrics.Text
