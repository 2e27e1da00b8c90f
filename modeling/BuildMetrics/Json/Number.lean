import BuildMetrics.Decimal.Digits

/-!
# Numbers in a JSON text

The parts of a number as it stands in the text, and the value they give. A number without
fraction and exponent that fits 64 bits is exact. Any other number becomes a double in three
steps: the digits that fit 64 bits are taken as a whole number, that number is rounded to a
double, and the double is multiplied or divided by a power of ten.
-/

namespace BuildMetrics.Json

/-- The parts of a number in a text. -/
structure NumberText where
  /-- a minus sign stands in front -/
  negative : Bool
  /-- the digits in front of the point -/
  whole : List Char
  /-- the digits behind the point, if there is one -/
  fraction : Option (List Char)
  /-- the power of ten, if one is given -/
  exponent : Option Int

/-- What a number in a text stands for. -/
inductive Number where
  /-- an exact number of at most 64 bits -/
  | integer (n : Int)
  /-- a double -/
  | float (x : Float)

namespace NumberText

/-- The digits behind `cs`, if any come at all. -/
def digits? (cs : List Char) : Option (List Char × List Char) :=
  match cs.span Char.isDigit with
  | ([], _) => none
  | (ds, rest) => some (ds, rest)

/-- The digits in front of the point. Nothing follows a leading zero. -/
def whole? : List Char → Option (List Char × List Char)
  | '0' :: rest =>
    match rest with
    | c :: _ => if c.isDigit then none else some (['0'], rest)
    | [] => some (['0'], [])
  | cs => digits? cs

/-- The fraction, if a point comes next. -/
def fraction? : List Char → Option (Option (List Char) × List Char)
  | '.' :: rest => (digits? rest).map fun (ds, rest) => (some ds, rest)
  | cs => some (none, cs)

/-- The digits of an exponent behind its sign. -/
def exponentDigits? (negative : Bool) (cs : List Char) : Option (Option Int × List Char) :=
  (digits? cs).map fun (ds, rest) =>
    let n := Int.ofNat (Decimal.ofDigits ds)
    (some (if negative then -n else n), rest)

/-- The exponent, if its letter comes next. -/
def exponent? : List Char → Option (Option Int × List Char)
  | c :: rest =>
    if c = 'e' ∨ c = 'E' then
      match rest with
      | '+' :: rest => exponentDigits? false rest
      | '-' :: rest => exponentDigits? true rest
      | rest => exponentDigits? false rest
    else some (none, c :: rest)
  | [] => some (none, [])

/-- Reads a number behind its sign. -/
def unsigned? (negative : Bool) (cs : List Char) : Option (NumberText × List Char) := do
  let (whole, cs) ← whole? cs
  let (fraction, cs) ← fraction? cs
  let (exponent, cs) ← exponent? cs
  return (⟨negative, whole, fraction, exponent⟩, cs)

/-- Reads a number at the start of a text; gives the rest of the text too. -/
def read? : List Char → Option (NumberText × List Char)
  | '-' :: cs => unsigned? true cs
  | cs => unsigned? false cs

/-! ## The value -/

/-- The digits are added to the number as long as it stays below `2 ^ 64`. Gives the number
and the digits that were not added. -/
def takeDigits (n : Nat) : List Char → Nat × List Char
  | [] => (n, [])
  | d :: ds =>
    let next := 10 * n + Decimal.digitValue d
    if next < 18446744073709551616 then takeDigits next ds else (n, d :: ds)

/-- A power of ten from `10 ^ 0` to `10 ^ 308`, rounded to a double. -/
def powerOfTen (k : Nat) : Float := Float.ofScientific 1 false k

/-- The number, below `2 ^ 64`, times a power of ten. There is no value beyond the doubles, and
a value too small for them is zero. -/
def scale? (n : Nat) (k : Int) : Option Float :=
  let x := (UInt64.ofNat n).toFloat
  if 0 ≤ k then
    if k ≤ 308 then
      let y := x * powerOfTen k.toNat
      if y.isInf then none else some y
    else if n = 0 then some 0 else none
  else if -308 ≤ k then some (x / powerOfTen (-k).toNat)
  else if -616 ≤ k then some (x / powerOfTen 308 / powerOfTen (-k - 308).toNat)
  else some 0

/-- The double that the parts stand for. Digits in front of the point that do not fit only
raise the power of ten; digits behind the point that do not fit are dropped. -/
def float? (t : NumberText) : Option Float :=
  let (n, left) := takeDigits 0 t.whole
  let fraction := t.fraction.getD []
  let (n, unused) := takeDigits n fraction
  let k := Int.ofNat left.length - Int.ofNat (fraction.length - unused.length) + t.exponent.getD 0
  (scale? n k).map fun x => if t.negative then -x else x

/-- What the parts stand for. Minus zero is a double, since it is no exact number. -/
def value? (t : NumberText) : Option Number :=
  let n := Decimal.ofDigits t.whole
  if t.fraction.isSome || t.exponent.isSome then t.float?.map .float
  else if t.negative then
    if 0 < n ∧ n ≤ 9223372036854775808 then some (.integer (-n)) else t.float?.map .float
  else if n < 18446744073709551616 then some (.integer n)
  else t.float?.map .float

end NumberText

end BuildMetrics.Json
