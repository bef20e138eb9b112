/-!
# Rounding quotients

Quotients of natural numbers, rounded to the nearest natural number. A quotient
half way between two goes to the even one or to the upper one, as asked.
-/

namespace Criteria.Decimal

/-- Where a value half way between two neighbours goes. -/
inductive Tie where
  | toEven
  | up
deriving DecidableEq

/-- A half on top of `n` moves up. -/
def Tie.goesUp (tie : Tie) (n : Nat) : Bool :=
  match tie with
  | .toEven => n % 2 == 1
  | .up => true

/-- `num / den` rounded to the nearest natural number. -/
def divRound (tie : Tie) (num den : Nat) : Nat :=
  let floor := num / den
  let rest := 2 * (num % den)
  if rest < den then floor
  else if rest = den then (if tie.goesUp floor then floor + 1 else floor)
  else floor + 1

/-- The power of a base, and 1 where the exponent is negative. -/
def power (base : Nat) (exponent : Int) : Nat := Nat.pow base exponent.toNat

/-- The number of decimal digits; zero has one. -/
def digitCount (n : Nat) : Nat := (Nat.toDigits 10 n).length

end Criteria.Decimal
