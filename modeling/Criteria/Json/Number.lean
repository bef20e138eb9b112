import Criteria.Binary64
import Criteria.Json.Fault

/-!
# JSON numbers

A number without fraction and exponent is an integer as long as it fits in 64
bits. Every other number is a floating-point number, made of a 64-bit
significand and a power of ten: digits that no longer fit in the significand
count towards the exponent before the point and are dropped after it, and the
significand and the power are each rounded before they are multiplied or
divided, so that the result is near the number but need not be the nearest.
-/

namespace Criteria.Json

/-- A number as it was read. -/
inductive Number where
  | unsigned (n : UInt64)
  | signed (i : Int64)
  | float (x : Binary64)

namespace Number

/-- Takes digits onto a significand while it fits in 64 bits, and counts those taken. -/
def absorb (significand : Nat) : List Char → Nat × Nat
  | [] => (significand, 0)
  | d :: digits =>
    let next := significand * 10 + (d.toNat - '0'.toNat)
    if next < UInt64.size then
      let (result, taken) := absorb next digits
      (result, taken + 1)
    else (significand, 0)

/-- The largest power of ten that is not infinite. -/
def largestPower : Nat := 308

/-- A power of ten, rounded. -/
def power (n : Nat) : Binary64 := Binary64.ofNat (Decimal.power 10 n)

/-- `x * 10 ^ exponent` in rounded steps; a number beyond the largest is not accepted. -/
def scale (x : Binary64) (exponent : Int) : Except Fault Binary64 :=
  if exponent.natAbs ≤ largestPower then
    if 0 ≤ exponent then
      let product := x.mul (power exponent.natAbs)
      if product.isInfinite then .error .malformed else .ok product
    else .ok (x.div (power exponent.natAbs))
  else if x.isZero then .ok x
  else if 0 ≤ exponent then .error .malformed
  else scale (x.div (power largestPower)) (exponent + largestPower)
termination_by exponent.natAbs
decreasing_by simp only [largestPower] at *; omega

/-- The floating-point number of a sign, a significand and an exponent. -/
def ofParts (negative : Bool) (significand : Nat) (exponent : Int) : Except Fault Number := do
  let x ← scale (Binary64.ofNat significand) exponent
  return .float (if negative then x.neg else x)

/-- The number of a sign and a significand: an integer where 64 bits hold it, and minus zero is not
an integer. -/
def ofInteger (negative : Bool) (n : Nat) : Number :=
  if !negative then .unsigned (UInt64.ofNat n)
  else if n = 0 ∨ 0x8000000000000000 < n then .float (Binary64.ofNat n).neg
  else .signed (Int64.ofInt (-n))

/-- The digits after the point and the rest; there has to be one. -/
def fractionDigits (cs : List Char) : Except Fault (List Char × List Char) :=
  let (digits, rest) := cs.span Char.isDigit
  if digits.isEmpty then unexpected rest else .ok (digits, rest)

/-- The exponent after its letter, and the rest; its sign may be missing and its digits not. -/
def exponentPart (cs : List Char) : Except Fault (Int × List Char) :=
  let (negative, cs) :=
    match cs with
    | '+' :: rest => (false, rest)
    | '-' :: rest => (true, rest)
    | rest => (false, rest)
  let (digits, rest) := cs.span Char.isDigit
  if digits.isEmpty then unexpected rest
  else
    let n := digits.foldl (fun n d => n * 10 + (d.toNat - '0'.toNat)) 0
    .ok (if negative then -n else n, rest)

/-- An optional exponent behind the digits of a floating-point number. -/
def withExponent (negative : Bool) (significand : Nat) (exponent : Int) (cs : List Char) :
    Except Fault (Number × List Char) := do
  let (more, rest) ←
    match cs with
    | 'e' :: rest | 'E' :: rest => exponentPart rest
    | rest => pure ((0 : Int), rest)
  let x ← ofParts negative significand (exponent + more)
  return (x, rest)

/-- A number behind its sign. A zero is the only digit before the point if it is the first. -/
def readMagnitude (negative : Bool) (cs : List Char) : Except Fault (Number × List Char) := do
  let (whole, rest) := cs.span Char.isDigit
  if whole.isEmpty then unexpected rest
  if whole.head? = some '0' ∧ 1 < whole.length then .error .malformed
  let (significand, taken) := absorb 0 whole
  let excess : Int := (whole.length - taken : Nat)
  match rest with
  | '.' :: rest =>
    let (digits, rest) ← fractionDigits rest
    let (significand, taken) := absorb significand digits
    withExponent negative significand (excess - taken) rest
  | 'e' :: _ | 'E' :: _ => withExponent negative significand excess rest
  | _ =>
    if excess = 0 then return (ofInteger negative significand, rest)
    else withExponent negative significand excess rest

/-- A number with its sign. -/
def read : Reader Number
  | '-' :: rest => readMagnitude true rest
  | rest => readMagnitude false rest

/-- The character begins a number. -/
def begins (c : Char) : Bool := c == '-' || c.isDigit

end Number

end Criteria.Json
