import Linkage.Number.Binary

/-!
# Linkage.Number.Precision — precisions and rounding to them

A precision bounds the digits of a binary fraction, the unit of its smallest values and the size of its largest.  A
number is rounded to the nearest that a precision has, and one half-way between two goes to the even one.
-/

namespace Linkage.Number

/-- The quotient rounded to the nearest integer, a half going to the even neighbour. -/
def roundDiv (num den : Nat) : Nat :=
  let q := num / den
  let r := num % den
  if 2 * r < den then q else if den < 2 * r then q + 1 else q + q % 2

/-- The binary fractions that a floating-point format has. -/
structure Precision where
  /-- Size of the format in bits. -/
  width : Nat
  /-- Binary digits of a significand. -/
  bits : Nat
  /-- Exponent of the unit of the smallest values. -/
  least : Int
  /-- The first power of two that is too large. -/
  top : Int
deriving DecidableEq

namespace Precision

def double : Precision := ⟨64, 53, -1074, 1024⟩
def single : Precision := ⟨32, 24, -149, 128⟩
def half : Precision := ⟨16, 11, -24, 16⟩

/-- How many decimal digits a number of the precision always keeps. -/
def decimals (p : Precision) : Nat := (Nat.toDigits 10 (Nat.pow 2 (p.bits - 1))).length - 1

end Precision

namespace Binary

/-- Number of binary digits of the significand. -/
def length (b : Binary) : Nat := if b.significand = 0 then 0 else b.significand.log2 + 1

/-- The nearest binary fraction with the digits and units of a precision, however large. -/
def round (p : Precision) (b : Binary) : Binary :=
  let unit := max p.least (b.exponent + b.length - p.bits)
  let significand :=
    if unit ≤ b.exponent then b.significand * Nat.pow 2 (b.exponent - unit).toNat
    else roundDiv b.significand (Nat.pow 2 (unit - b.exponent).toNat)
  if significand = Nat.pow 2 p.bits then ⟨b.negative, Nat.pow 2 (p.bits - 1), unit + 1⟩ else ⟨b.negative, significand, unit⟩

end Binary

/-- The number of a precision nearest to a double; one that is too large is infinite. -/
def Precision.nearest (p : Precision) (x : Float) : Float :=
  match read x with
  | .finite b =>
    let r := b.round p
    if p.top < r.exponent + r.length then (if r.negative then -(1.0 / 0.0) else 1.0 / 0.0) else r.toFloat
  | _ => x

end Linkage.Number
