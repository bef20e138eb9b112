import Criteria.Decimal.Rounding

/-!
# Shortest decimals

The fewest digits that single out a positive number within an interval around
it.

For each position of the last digit the decimals form a grid, and if a point of
the grid lies in the interval then so does one of the number's two neighbours on
it. The coarsest grid with a hit wins; of two hits the nearer one is taken, and
a tie is settled by the caller.
-/

namespace Criteria.Decimal

/-- The number `digits * 10 ^ exponent`. -/
structure Scaled where
  digits : Nat
  exponent : Int
deriving DecidableEq

/-- A positive number and the interval of the reals that round to it, over one denominator. -/
structure Interval where
  lower : Nat
  value : Nat
  upper : Nat
  denominator : Nat
  /-- The two ends belong to the interval. -/
  closed : Bool

namespace Interval

/-- The exponent of the leading digit of a positive quotient: it is at least `10 ^ e` and less than
`10 ^ (e + 1)`. -/
def leadingExponent (num den : Nat) : Int :=
  if den ≤ num then (digitCount (num / den) : Int) - 1 else -(digitCount ((den - 1) / num) : Int)

/-- The point `n * unit` lies in the interval stretched by `stretch`. -/
def contains (i : Interval) (stretch unit n : Nat) : Bool :=
  if i.closed then i.lower * stretch ≤ n * unit && n * unit ≤ i.upper * stretch
  else i.lower * stretch < n * unit && n * unit < i.upper * stretch

/-- The multiple of `10 ^ place` that lies in the interval and nearest to the value, if one does. -/
def nearestAt (i : Interval) (tie : Tie) (place : Int) : Option Nat :=
  let stretch := power 10 (-place)
  let unit := i.denominator * power 10 place
  let below := i.value * stretch / unit
  let above := below + 1
  match i.contains stretch unit below, i.contains stretch unit above with
  | true, true => some (divRound tie (i.value * stretch) unit)
  | true, false => some below
  | false, true => some above
  | false, false => none

/-- The value in as few digits as the interval admits, at most seventeen. -/
def shortest (i : Interval) (tie : Tie) : Option Scaled :=
  let top := leadingExponent i.value i.denominator + 1
  (List.range 18).findSome? fun (n : Nat) =>
    (i.nearestAt tie (top - n)).map fun digits => ⟨digits, top - n⟩

end Interval

end Criteria.Decimal
