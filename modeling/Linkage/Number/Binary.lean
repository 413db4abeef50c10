/-!
# Linkage.Number.Binary — a double as an exact binary fraction

A finite double is `±significand · 2 ^ exponent` with natural `significand`; every exact statement about decimal
text, remainders and conversions is made on these two numbers.
-/

namespace Linkage.Number

/-- A finite double read exactly: the value is `significand · 2 ^ exponent`, with a sign that zero keeps too. -/
structure Binary where
  negative : Bool
  significand : Nat
  exponent : Int
deriving DecidableEq

/-- What the bits of a double stand for. -/
inductive Reading
  | undefined
  | infinite (negative : Bool)
  | finite (value : Binary)
deriving DecidableEq

/-- Splits a double into sign, exponent and significand. -/
def read (x : Float) : Reading :=
  let bits := x.toBits.toNat
  let negative := bits / Nat.pow 2 63 == 1
  let biased : Nat := bits / Nat.pow 2 52 % Nat.pow 2 11
  let fraction := bits % Nat.pow 2 52
  if biased = 2047 then
    if fraction = 0 then .infinite negative else .undefined
  else if biased = 0 then .finite ⟨negative, fraction, -1074⟩
  else .finite ⟨negative, Nat.pow 2 52 + fraction, (biased : Int) - 1075⟩

namespace Binary

/-- The magnitude as a quotient of natural numbers. -/
def ratio (b : Binary) : Nat × Nat :=
  if 0 ≤ b.exponent then (b.significand * Nat.pow 2 b.exponent.toNat, 1)
  else (b.significand, Nat.pow 2 (-b.exponent).toNat)

/-- The double with that value, exact while the significand is below `2 ^ 53` and the exponent is that of a double. -/
def toFloat (b : Binary) : Float :=
  let x := (Float.ofNat b.significand).scaleB b.exponent
  if b.negative then -x else x

/-- The value with its fraction cut off. -/
def truncate (b : Binary) : Int :=
  let size : Nat := b.ratio.1 / b.ratio.2
  if b.negative then -(size : Int) else size

end Binary

/-- The integer left when the fraction of a finite double is cut off. -/
def truncate? (x : Float) : Option Int :=
  match read x with
  | .finite b => some b.truncate
  | _ => none

/-- The double nearest to `coefficient · 10 ^ exponent`, a half going to the even neighbour.  The exponents at which
every nonzero coefficient overflows or vanishes are answered without forming the power. -/
def ofDecimal (coefficient : Nat) (exponent : Int) : Float :=
  let digits : Int := (Nat.toDigits 10 coefficient).length
  if coefficient = 0 then 0.0
  else if 400 < digits + exponent then 1.0 / 0.0
  else if digits + exponent < -400 then 0.0
  else if 0 ≤ exponent then Float.ofScientific coefficient false exponent.toNat
  else Float.ofScientific coefficient true (-exponent).toNat

/-- The double nearest to an integer, or nothing when every double is smaller. -/
def ofInt? (n : Int) : Option Float :=
  let size := ofDecimal n.natAbs 0
  if size.isFinite then some (if n < 0 then -size else size) else none

end Linkage.Number
