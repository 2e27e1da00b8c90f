import BuildMetrics.Text.Hex
import BuildMetrics.Text.Utf8

/-!
# Percent escapes

A percent sign and two hexadecimal digits stand for one byte. `unescape` reads the escapes
of a text and leaves every other character, a percent sign without its digits included, as
its UTF-8 form. `decodeForm` is stricter: it reads a name in form encoding, where a plus
sign is a space too, and gives back the name itself when that does not work out.
-/

namespace BuildMetrics.Text

/-- The byte of the two hexadecimal digits that the text starts with. -/
def hexPair? : List Char → Option UInt8
  | a :: b :: _ =>
    match hexValue? a, hexValue? b with
    | some x, some y => some (UInt8.ofNat (16 * x + y))
    | _, _ => none
  | _ => none

/-- The bytes of a text in which each escape is a single byte. -/
def unescape : List Char → List UInt8
  | [] => []
  | '%' :: a :: b :: cs =>
    match hexPair? [a, b] with
    | some byte => byte :: unescape cs
    | none => String.utf8EncodeChar '%' ++ unescape (a :: b :: cs)
  | c :: cs => String.utf8EncodeChar c ++ unescape cs

/-- Every percent sign is followed by two hexadecimal digits. -/
def isEscaped : List Char → Bool
  | [] => true
  | c :: cs => (c != '%' || (hexPair? cs).isSome) && isEscaped cs

/-- The name behind a name in form encoding. A name without escapes, with a percent sign
that starts none, or with bytes that are no text is its own name. -/
def decodeForm (name : String) : String :=
  if name.toList.contains '%' && isEscaped name.toList then
    (decodeUtf8? (unescape (name.toList.map fun c => if c = '+' then ' ' else c))).getD name
  else name

end BuildMetrics.Text
