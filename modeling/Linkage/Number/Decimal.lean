import Linkage.Number.Precision

/-!
# Linkage.Number.Decimal — decimal digits of a binary fraction

Two ways to choose digits: a given number of them, rounded to the nearest decimal, and the fewest that read back as
the same number of a precision.  Both work on exact natural numbers.
-/

namespace Linkage.Number

/-- Number of decimal digits. -/
def decimalLength (n : Nat) : Nat := (Nat.toDigits 10 n).length

/-- Position of the first digit of `num / den`: the `e` with `10 ^ e ≤ num / den < 10 ^ (e + 1)`. -/
def leadingExponent (num den : Nat) : Int :=
  if den ≤ num then (decimalLength (num / den) : Int) - 1
  else -(decimalLength ((den - 1) / num) : Int)

/-- The quotient `num / den · 10 ^ shift`, again as a quotient. -/
def shiftDecimal (num den : Nat) (shift : Int) : Nat × Nat :=
  if 0 ≤ shift then (num * Nat.pow 10 shift.toNat, den) else (num, den * Nat.pow 10 (-shift).toNat)

/-- Decimal digits with the power of ten that the first of them counts. -/
structure Decimal where
  digits : List Char
  exponent : Int
deriving DecidableEq

namespace Decimal

/-- Digits of a coefficient chosen on the grid of `count` digits below `10 ^ (exponent + 1)`; one that rounded up
to the next power of ten moves the exponent. -/
def ofCoefficient (coefficient count : Nat) (exponent : Int) : Decimal :=
  let digits := Nat.toDigits 10 coefficient
  if count < digits.length then ⟨digits.take count, exponent + 1⟩ else ⟨digits, exponent⟩

/-- The digits without the zeros at their end; the first digit stays. -/
def trim (d : Decimal) : Decimal :=
  let kept := (d.digits.reverse.dropWhile (· == '0')).reverse
  ⟨if kept.isEmpty then ['0'] else kept, d.exponent⟩

end Decimal

namespace Binary

/-- The nearest decimal of `count` significant digits. -/
def toPrecision (b : Binary) (count : Nat) : Decimal :=
  if b.significand = 0 then ⟨List.replicate count '0', 0⟩
  else
    let (num, den) := b.ratio
    let e := leadingExponent num den
    let (p, q) := shiftDecimal num den (count - 1 - e)
    .ofCoefficient (roundDiv p q) count e

/-- The multiple of `10 ^ (-places)` nearest to the magnitude, counted in that unit. -/
def toPlaces (b : Binary) (places : Nat) : Nat :=
  let (num, den) := b.ratio
  roundDiv (num * Nat.pow 10 places) den

/-- Ends of the interval of reals that a precision rounds to the magnitude, in units of `2 ^ (exponent - 2)`.  Below a
power of two the neighbours are twice as close. -/
def ends (p : Precision) (b : Binary) : Nat × Nat :=
  let below := if b.significand = Nat.pow 2 (p.bits - 1) ∧ p.least < b.exponent then 1 else 2
  (4 * b.significand - below, 4 * b.significand + 2)

/-- Whether `coefficient · 10 ^ (-shift)` rounds to the magnitude; the ends count when the significand is even. -/
def readsBack (p : Precision) (b : Binary) (coefficient : Nat) (shift : Int) : Bool :=
  let (num, den) := Binary.ratio ⟨false, 1, b.exponent - 2⟩
  let (unit, scale) := shiftDecimal num den shift
  let (low, high) := b.ends p
  let c := coefficient * scale
  if b.significand % 2 = 0 then low * unit ≤ c && c ≤ high * unit else low * unit < c && c < high * unit

/-- The decimal of `count` digits that reads back, if there is one: of the two neighbours of the value on that grid
the nearer, an exact tie going to the even one. -/
def onGrid (p : Precision) (b : Binary) (count : Nat) : Option Decimal :=
  let (num, den) := b.ratio
  let e := leadingExponent num den
  let shift : Int := count - 1 - e
  let (size, unit) := shiftDecimal num den shift
  let near := roundDiv size unit
  let low := size / unit
  let far := if near = low then low + 1 else low
  if b.readsBack p near shift then some (.ofCoefficient near count e)
  else if b.readsBack p far shift then some (.ofCoefficient far count e)
  else none

/-- The fewest digits that read back as the same number of a precision, and of those the nearest; seventeen always
do. -/
def shortestIn (p : Precision) (b : Binary) : Decimal :=
  if b.significand = 0 then ⟨['0'], 0⟩
  else
    match (List.range 17).findSome? fun n => b.onGrid p (n + 1) with
    | some d => d.trim
    | none => (b.toPrecision 17).trim

/-- The fewest digits that read back as the same double. -/
def shortest (b : Binary) : Decimal := b.shortestIn .double

end Binary

end Linkage.Number
