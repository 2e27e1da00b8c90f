import BuildMetrics.Json.Codec
import BuildMetrics.Text.Hex

/-!
# Numbers of reports

Each report gets a number of 128 bits. It is written as 32 hexadecimal digits in five groups with
hyphens between them. It is read with or without the hyphens, and with them also between braces
or behind the scheme of a name.
-/

namespace BuildMetrics.Api

/-- The number of a report. -/
abbrev ReportId : Type := BitVec 128

namespace ReportId

/-- The 32 hexadecimal digits, the greatest place first. -/
def digits (id : ReportId) : List Char :=
  (List.range 32).reverse.map fun place => Text.hexDigit (id.toNat >>> (4 * place) % 16)

/-- Puts hyphens between groups of 8, 4, 4, 4 and 12 digits. -/
def grouped (cs : List Char) : List Char :=
  cs.take 8 ++ '-' :: ((cs.drop 8).take 4 ++ '-' :: ((cs.drop 12).take 4 ++
    '-' :: ((cs.drop 16).take 4 ++ '-' :: cs.drop 20)))

/-- The written form. -/
def text (id : ReportId) : String := String.ofList (grouped id.digits)

/-- The number of 32 hexadecimal digits of either case. -/
def ofDigits? (cs : List Char) : Option ReportId := do
  let values ← cs.mapM Text.hexValue?
  if values.length = 32 then
    return BitVec.ofNat 128 (values.foldl (fun n d => 16 * n + d) 0)
  else none

/-- The number of digits in groups. -/
def ofGrouped? (cs : List Char) : Option ReportId :=
  let digits := cs.filter (· ≠ '-')
  if grouped digits = cs then ofDigits? digits else none

/-- The scheme of a name. -/
def scheme : List Char := "urn:uuid:".toList

/-- Takes away the braces around a text, or the scheme in front of it. -/
def unwrapped (cs : List Char) : List Char :=
  if cs.head? = some '\x7b' ∧ cs.getLast? = some '\x7d' then cs.tail.dropLast
  else if scheme.isPrefixOf cs then cs.drop scheme.length
  else cs

/-- The number that a text stands for. -/
def ofText? (s : String) : Option ReportId :=
  (ofDigits? s.toList).or (ofGrouped? (unwrapped s.toList))

/-- A number is a text. -/
def codec : Json.Codec ReportId where
  write id := .string id.text
  read p d := do
    match ofText? (← Json.Codec.string.read p d) with
    | some id => return id
    | none => throw .shapeError

end ReportId

end BuildMetrics.Api
