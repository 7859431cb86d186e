import DeclTree.Number.Binary64

/-!
# Shortest decimals of binary numbers

The decimal of a binary number has the fewest digits that read back as that number. Of two
such decimals with equally many digits the nearer one is taken, and the larger one when
both are equally near. It is always written out in full, with no exponent and no trailing
zero after the point.
-/

namespace DeclTree

/-- The number `digits * 10 ^ exponent`. -/
structure Decimal where
  digits : Nat
  exponent : Int
deriving DecidableEq, Repr

/-- A positive fraction together with the bounds of what reads back as it. All three share one
denominator. -/
structure Rounding where
  value : Nat
  below : Nat
  above : Nat
  denominator : Nat
  /-- Whether the bounds themselves read back. -/
  closed : Bool
deriving Repr

namespace Rounding

/-- What rounds to a finite nonzero number: half-way to each neighbour, in quarters of the last
binary place. A number with an even significand also wins the ties. -/
def ofBinary64 (x : Binary64) : Rounding :=
  let quarters := 4 * x.significand
  let shift := x.power - 2
  let scale := Nat.pow 2 shift.toNat
  { value := quarters * scale
    below := (quarters - (if x.isNarrowBelow then 1 else 2)) * scale
    above := (quarters + 2) * scale
    denominator := Nat.pow 2 (-shift).toNat
    closed := x.significand % 2 = 0 }

/-- Number of decimal digits of a positive number. -/
def digitCount (n : Nat) : Nat := (Nat.toDigits 10 n).length

/-- The exponent `e` with `10 ^ (e - 1) ≤ value < 10 ^ e`. -/
def magnitude (r : Rounding) : Int :=
  if r.denominator ≤ r.value then digitCount (r.value / r.denominator)
  else 1 - (digitCount ((r.denominator - 1) / r.value) : Int)

/-- Whether `n * 10 ^ exponent` reads back. -/
def admits (r : Rounding) (n : Nat) (exponent : Int) : Bool :=
  let scaled := n * Nat.pow 10 exponent.toNat * r.denominator
  let unit := Nat.pow 10 (-exponent).toNat
  if r.closed then r.below * unit ≤ scaled && scaled ≤ r.above * unit
  else r.below * unit < scaled && scaled < r.above * unit

/-- The nearest multiple of `10 ^ exponent` that reads back, if any; a tie goes up. -/
def nearest? (r : Rounding) (exponent : Int) : Option Decimal :=
  let ten := Nat.pow 10 exponent.toNat * r.denominator
  let scaled := r.value * Nat.pow 10 (-exponent).toNat
  let floor := scaled / ten
  let up := (2 * floor + 1) * ten ≤ 2 * scaled
  match r.admits floor exponent, r.admits (floor + 1) exponent with
  | true, true => some ⟨if up then floor + 1 else floor, exponent⟩
  | true, false => some ⟨floor, exponent⟩
  | false, true => some ⟨floor + 1, exponent⟩
  | false, false => none

/-- Seventeen digits always suffice. -/
def shortest (r : Rounding) : Decimal :=
  let top := r.magnitude
  ((List.range 17).findSome? fun (k : Nat) => r.nearest? (top - 1 - k)).getD ⟨0, 0⟩

end Rounding

namespace Decimal

/-- The decimal written out in full. -/
def positional (d : Decimal) : String :=
  let digits := Nat.toDigits 10 d.digits
  let places := (-d.exponent).toNat
  let padded := List.replicate (places + 1 - digits.length) '0' ++ digits
  let whole := padded.take (padded.length - places)
  let fraction := ((padded.drop (padded.length - places)).reverse.dropWhile (· = '0')).reverse
  let zeros := List.replicate d.exponent.toNat '0'
  String.ofList <|
    if fraction.isEmpty then whole ++ zeros else whole ++ '.' :: fraction

end Decimal

namespace Binary64

/-- The text of a number without its sign. -/
def magnitudeText (x : Binary64) : String :=
  if x.isInfinite then "inf"
  else if x.isZero then "0"
  else (Rounding.ofBinary64 x).shortest.positional

def text (x : Binary64) : String :=
  if x.isNaN then "NaN"
  else if x.isNegative then "-" ++ x.magnitudeText
  else x.magnitudeText

end Binary64

end DeclTree
