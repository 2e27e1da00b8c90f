import BuildMetrics.Decimal.Shortest

/-!
# Decimal text of a double

A format says how the shortest decimal of a double is laid out: where the positional form
ends and the form with an exponent begins, which way a tie goes, and what stands for a value
that is no number.
-/

namespace BuildMetrics.Decimal

/-- How a double is written. The point of a decimal is the number of its digits in front of
the decimal point; it is negative when zeros follow the decimal point. -/
structure Format where
  /-- which of two equally near decimals is written -/
  tie : Tie
  /-- the least point that is written positionally -/
  leastPoint : Int
  /-- the greatest point that is written positionally -/
  greatestPoint : Int
  /-- the text of no number -/
  nan : List Char
  /-- the text of infinity -/
  infinity : List Char

/-- The digits with a decimal point among them; at least one digit stands on either side. -/
def positional (ds : List Char) (point : Int) : List Char :=
  if point ≤ 0 then '0' :: '.' :: (List.replicate (-point).toNat '0' ++ ds)
  else if point.toNat < ds.length then ds.take point.toNat ++ '.' :: ds.drop point.toNat
  else ds ++ List.replicate (point.toNat - ds.length) '0' ++ ['.', '0']

/-- One digit, the others behind a decimal point, and the power of ten. -/
def scientific (ds : List Char) (point : Int) : List Char :=
  match ds with
  | [] => []
  | [d] => d :: 'e' :: intChars (point - 1)
  | d :: rest => d :: '.' :: rest ++ 'e' :: intChars (point - 1)

/-- The text of a decimal. -/
def Format.decimalChars (f : Format) (d : Numeral) : List Char :=
  let ds := digits d.digits
  let point := d.exponent + ds.length
  if f.leastPoint ≤ point ∧ point ≤ f.greatestPoint then positional ds point
  else scientific ds point

/-- Puts a minus sign in front of a negative number. -/
def signed (negative : Bool) (cs : List Char) : List Char :=
  if negative then '-' :: cs else cs

/-- The text of a double. -/
def Format.chars (f : Format) (x : Float) : List Char :=
  match Parts.ofFloat x with
  | .nan => f.nan
  | .infinite negative => signed negative f.infinity
  | .zero negative => signed negative ['0', '.', '0']
  | .finite negative size => signed negative (f.decimalChars (shortest f.tie size))

end BuildMetrics.Decimal
