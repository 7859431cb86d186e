/-!
# Binary floating-point numbers of 64 bits

A number is its bit pattern: a sign bit, eleven bits of exponent and fifty-two of fraction.
Classification and numeric equality are read off the fields in exact arithmetic.
-/

namespace DeclTree

/-- A floating-point number given by its bits. -/
structure Binary64 where
  bits : UInt64
deriving DecidableEq, Repr

namespace Binary64

def isNegative (x : Binary64) : Bool := Nat.pow 2 63 ≤ x.bits.toNat

/-- The biased exponent, below `2 ^ 11`. -/
def exponentField (x : Binary64) : Nat := x.bits.toNat / Nat.pow 2 52 % Nat.pow 2 11

/-- The stored fraction, below `2 ^ 52`. -/
def fractionField (x : Binary64) : Nat := x.bits.toNat % Nat.pow 2 52

def isNaN (x : Binary64) : Bool := x.exponentField = 2047 ∧ x.fractionField ≠ 0

def isInfinite (x : Binary64) : Bool := x.exponentField = 2047 ∧ x.fractionField = 0

def isZero (x : Binary64) : Bool := x.exponentField = 0 ∧ x.fractionField = 0

/-- Numeric equality: no NaN equals anything, and the two zeros are equal. -/
def numericEq (x y : Binary64) : Bool :=
  !x.isNaN && !y.isNaN && (x.bits == y.bits || (x.isZero && y.isZero))

/-- Significand of a finite number: its magnitude is `significand * 2 ^ power`. -/
def significand (x : Binary64) : Nat :=
  if x.exponentField = 0 then x.fractionField else Nat.pow 2 52 + x.fractionField

/-- Binary exponent of a finite number's significand. -/
def power (x : Binary64) : Int :=
  if x.exponentField = 0 then -1074 else (x.exponentField : Int) - 1075

/-- Whether the next number below is only half as far away as the next one above, as it is at
the lower end of every binade but the first. -/
def isNarrowBelow (x : Binary64) : Bool := x.fractionField = 0 ∧ 1 < x.exponentField

end Binary64

end DeclTree
