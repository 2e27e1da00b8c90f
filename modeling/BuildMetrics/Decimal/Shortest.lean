import BuildMetrics.Decimal.Digits

/-!
# The shortest decimal of a binary number

A double stands for the interval of reals that round to it. `shortest` finds the decimal in
that interval with the fewest digits, and among those the one nearest to the double. The
search is exact: it goes through the decimal grids from coarse to fine and looks at the two
points of each grid that lie next to the double. If any point of a grid is in the interval,
one of these two is, so the first grid with a hit has the fewest digits.
-/

namespace BuildMetrics.Decimal

/-- Which of two decimals at the same distance is taken. -/
inductive Tie where
  /-- the greater one -/
  | up
  /-- the one whose last digit is even -/
  | even

/-- A positive number `mantissa * 2 ^ exponent` of a binary format. -/
structure Binary where
  /-- the bits of the number -/
  mantissa : Nat
  /-- the power of two of the last bit -/
  exponent : Int
  /-- the next number below is only half as far away as the next one above -/
  isPower : Bool

/-- A decimal `digits * 10 ^ exponent`. -/
structure Numeral where
  /-- the digits, read as a number -/
  digits : Nat
  /-- the power of ten of the last digit -/
  exponent : Int

/-- `n * 2 ^ a * 10 ^ b`, as a numerator over the denominator that `below` gives. -/
def above (n : Nat) (a b : Int) : Nat := n * Nat.pow 2 a.toNat * Nat.pow 10 b.toNat

/-- The denominator that belongs to `above`. -/
def below (a b : Int) : Nat := Nat.pow 2 (-a).toNat * Nat.pow 10 (-b).toNat

/-- The point of the grid of multiples of `10 ^ k` that stands for the number. Distances
are counted in quarters of the number's last bit. -/
def onGrid? (tie : Tie) (x : Binary) (k : Int) : Option Numeral :=
  let den := below (x.exponent - 2) (-k)
  let value := above (4 * x.mantissa) (x.exponent - 2) (-k)
  let upper := above (4 * x.mantissa + 2) (x.exponent - 2) (-k)
  let lower := above (4 * x.mantissa - (if x.isPower then 1 else 2)) (x.exponent - 2) (-k)
  let closed := x.mantissa % 2 = 0
  let floor := value / den
  let isIn (d : Nat) : Bool :=
    if closed then lower ≤ d * den && d * den ≤ upper else lower < d * den && d * den < upper
  let rest := value - floor * den
  let roundsUp : Bool :=
    match tie with
    | .up => den ≤ 2 * rest
    | .even => den < 2 * rest || (den = 2 * rest && floor % 2 = 1)
  match isIn floor, isIn (floor + 1) with
  | true, true => some ⟨if roundsUp then floor + 1 else floor, k⟩
  | true, false => some ⟨floor, k⟩
  | false, true => some ⟨floor + 1, k⟩
  | false, false => none

/-- A power of ten above the number. -/
def Binary.magnitude (x : Binary) : Int :=
  (x.mantissa.log2 + 1 + x.exponent) * 30103 / 100000 + 2

/-- The decimal with the fewest digits that stands for the number. Seventeen digits are
always enough for a double, and the search starts at most three grids too coarse. -/
def shortest (tie : Tie) (x : Binary) : Numeral :=
  ((List.range 24).findSome? fun n => onGrid? tie x (x.magnitude - (n : Nat))).getD ⟨0, 0⟩

/-- A double as its sign and its size. -/
inductive Parts where
  /-- no number -/
  | nan
  /-- beyond every number -/
  | infinite (negative : Bool)
  /-- zero, which has a sign too -/
  | zero (negative : Bool)
  /-- any other number -/
  | finite (negative : Bool) (size : Binary)

/-- The bit in front of the stored ones, which every number has that is not among the least. -/
def leadingBit : Nat := 4503599627370496

/-- Takes a double apart by its bits. -/
def Parts.ofFloat (x : Float) : Parts :=
  let bits : Nat := x.toBits.toNat
  let negative : Bool := bits >>> 63 = 1
  let biased : Nat := bits >>> 52 % 2048
  let fraction : Nat := bits % leadingBit
  if biased = 2047 then
    if fraction = 0 then .infinite negative else .nan
  else if biased = 0 then
    if fraction = 0 then .zero negative else .finite negative ⟨fraction, -1074, false⟩
  else
    .finite negative ⟨leadingBit + fraction, Int.ofNat biased - 1075, fraction = 0 && biased != 1⟩

end BuildMetrics.Decimal
