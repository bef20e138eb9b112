import Criteria.Decimal.Layout

/-!
# Binary floating-point numbers

The 64-bit interchange format, held as its bits: a sign, eleven bits of
exponent and fifty-two of fraction. All that is computed here is computed
exactly on natural numbers and rounded once, to nearest and ties to even.

Equality of numbers is not equality of bits: a NaN equals nothing and the two
zeros are equal.
-/

namespace Criteria

/-- A floating-point number by its bits; a NaN keeps its payload. -/
structure Binary64 where
  bits : UInt64
deriving DecidableEq

namespace Binary64

open Decimal (power)

/-- The place of the leading bit of a normal significand, just above the fraction. -/
def leadingUnit : Nat := 0x10000000000000

/-- The sign bit is set. -/
def isNegative (x : Binary64) : Bool := 0x8000000000000000 ≤ x.bits.toNat

/-- The eleven bits of the exponent. -/
def field (x : Binary64) : Nat := x.bits.toNat / leadingUnit % 0x800

/-- The fifty-two bits of the fraction. -/
def fraction (x : Binary64) : Nat := x.bits.toNat % leadingUnit

/-- Not a number. -/
def isNaN (x : Binary64) : Bool := x.field == 2047 && x.fraction != 0

/-- Either infinity. -/
def isInfinite (x : Binary64) : Bool := x.field == 2047 && x.fraction == 0

/-- Either zero. -/
def isZero (x : Binary64) : Bool := x.field == 0 && x.fraction == 0

/-- A finite number has the magnitude `significand * 2 ^ exponent`; this is the first factor. -/
def significand (x : Binary64) : Nat := if x.field = 0 then x.fraction else leadingUnit + x.fraction

/-- The exponent of a finite number's last bit. -/
def exponent (x : Binary64) : Int := if x.field = 0 then -1074 else (x.field : Int) - 1075

/-- Equality of numbers. -/
def same (x y : Binary64) : Bool :=
  !x.isNaN && !y.isNaN && (x == y || (x.isZero && y.isZero))

/-- The number with the other sign. -/
def neg (x : Binary64) : Binary64 := ⟨x.bits ^^^ 0x8000000000000000⟩

/-! ## Rounding -/

/-- The bits of infinity, which are also a bound on those of the finite positive numbers. -/
def infinityBits : Nat := 0x7FF0000000000000

/-- The exponent of the leading bit of a positive quotient. -/
def leadingBit (num den : Nat) : Int :=
  let guess := (num.log2 : Int) - den.log2
  if den * power 2 guess ≤ num * power 2 (-guess) then guess else guess - 1

/-- The number nearest to `num / den`; infinity if that is beyond the largest. The leading bit of a
normal significand, added to the exponent's place, carries into the exponent field. -/
def ofRatio (num den : Nat) : Binary64 :=
  if num = 0 then ⟨0⟩
  else
    let exponent := max (leadingBit num den - 52) (-1074)
    let m := Decimal.divRound .toEven (num * power 2 (-exponent)) (den * power 2 exponent)
    ⟨UInt64.ofNat (min ((exponent + 1074).toNat * leadingUnit + m) infinityBits)⟩

/-- A natural number, rounded. -/
def ofNat (n : Nat) : Binary64 := ofRatio n 1

/-- The magnitude of a finite number as a quotient. -/
def ratio (x : Binary64) : Nat × Nat :=
  (x.significand * power 2 x.exponent, power 2 (-x.exponent))

/-- The rounded product of two finite magnitudes. -/
def mul (x y : Binary64) : Binary64 :=
  ofRatio (x.ratio.1 * y.ratio.1) (x.ratio.2 * y.ratio.2)

/-- The rounded quotient of two finite magnitudes, the second not zero. -/
def div (x y : Binary64) : Binary64 :=
  ofRatio (x.ratio.1 * y.ratio.2) (x.ratio.2 * y.ratio.1)

/-! ## Text -/

/-- The reals that round to the magnitude of a finite number, with that magnitude, in quarters of
its last bit. Below a power of two the numbers are twice as dense. -/
def interval (x : Binary64) : Decimal.Interval :=
  let quarter := x.exponent - 2
  let scale := power 2 quarter
  let m := x.significand
  let gap := if x.fraction = 0 ∧ 1 < x.field then 1 else 2
  { lower := (4 * m - gap) * scale
    value := 4 * m * scale
    upper := (4 * m + 2) * scale
    denominator := power 2 (-quarter)
    closed := m % 2 == 0 }

/-- The magnitude of a finite number in its fewest digits. -/
def magnitudeText (l : Decimal.Layout) (x : Binary64) : String :=
  match if x.isZero then none else x.interval.shortest l.tie with
  | some digits => l.write digits
  | none => l.zero

/-- The number in a layout, with its sign. -/
def textIn (l : Decimal.Layout) (x : Binary64) : String :=
  if x.isNaN then l.notANumber
  else if x.isInfinite then (if x.isNegative then l.minusInfinity else l.infinity)
  else (if x.isNegative then "-" else "") ++ x.magnitudeText l

end Binary64

end Criteria
