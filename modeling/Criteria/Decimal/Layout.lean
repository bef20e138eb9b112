import Criteria.Decimal.Shortest

/-!
# Number layouts

How the digits of a number are set: where positional notation ends, what whole
numbers carry after their digits, and the words for what has no digits.
-/

namespace Criteria.Decimal

/-- The decisions of one written form of numbers. -/
structure Layout where
  /-- Where the last digit goes when two decimals are equally near. -/
  tie : Tie
  /-- Positional notation is used if the point stands after more than this many digits (negative:
  zeros after the point), where a bound is given, -/
  above : Option Int
  /-- and after no more than this many. -/
  upTo : Option Int
  /-- What follows the digits of a whole number in positional notation. -/
  wholeMark : String
  /-- What stands in front of an exponent that is not negative. -/
  plus : String
  notANumber : String
  infinity : String
  minusInfinity : String

namespace Layout

/-- The number is written without an exponent if the point stands after `point` of its digits. -/
def isPositional (l : Layout) (point : Int) : Bool :=
  l.above.all (· < point) && l.upTo.all (point ≤ ·)

/-- `digits * 10 ^ exponent` in this layout. -/
def write (l : Layout) (x : Scaled) : String :=
  let digits := Nat.toDigits 10 x.digits
  let point := (digits.length : Int) + x.exponent
  let zeros (n : Int) := List.replicate n.toNat '0'
  if l.isPositional point then
    if 0 ≤ x.exponent then String.ofList (digits ++ zeros x.exponent) ++ l.wholeMark
    else if 0 < point then
      String.ofList (digits.take point.toNat ++ '.' :: digits.drop point.toNat)
    else String.ofList ('0' :: '.' :: (zeros (-point) ++ digits))
  else
    let fraction := if digits.length ≤ 1 then [] else '.' :: digits.drop 1
    let exponent := point - 1
    String.ofList (digits.take 1 ++ fraction) ++ "e" ++ (if 0 ≤ exponent then l.plus else "") ++
      toString exponent

/-- Zero in this layout. -/
def zero (l : Layout) : String := "0" ++ l.wholeMark

end Layout

/-- A quotient with a fixed number of decimal places, ties to even. -/
def fixed (places num den : Nat) : String :=
  let unit := power 10 places
  let n := divRound .toEven (num * unit) den
  let fraction := Nat.toDigits 10 (n % unit)
  toString (n / unit) ++ "." ++
    String.ofList (List.replicate (places - fraction.length) '0' ++ fraction)

end Criteria.Decimal
