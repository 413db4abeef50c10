/-!
# Linkage.Scalar — the numbers a layout is computed with

Everything geometric in this library is written over a `Scalar`, once for the doubles that run and once for any other
number system that has the operations.  Comparisons are decidable, division is total and undefined at zero, and the
callers that may meet a zero divisor ask for it first.
-/

namespace Linkage

/-- Numbers with the arithmetic, the comparisons and the plane trigonometry of a layout. -/
class Scalar (α : Type) extends Zero α, One α, Add α, Sub α, Mul α, Div α, Neg α, LT α, LE α where
  decideLt (a b : α) : Decidable (a < b)
  decideLe (a b : α) : Decidable (a ≤ b)
  abs : α → α
  sqrt : α → α
  /-- Length of the vector with these components. -/
  hypot : α → α → α
  /-- Angle of the vector `(x, y)` against the x-axis, from the components `y` and `x`. -/
  arctan : α → α → α
  cos : α → α
  sin : α → α
  /-- The remainder with the sign of the divisor. -/
  floorMod : α → α → α
  pi : α
  /-- The distance from one to the next larger double, `2 ^ -52`. -/
  epsilon : α
  rootEpsilon : α
  /-- Radians in degrees. -/
  degrees : α → α
  isFinite : α → Bool
  isInfinite : α → Bool
  /-- The number of that integer value, when there is one. -/
  ofInt? : Int → Option α
  /-- The integer left when the fraction is cut off, when the number is finite. -/
  truncate? : α → Option Int

namespace Scalar

variable {α : Type} [Scalar α]

instance (a b : α) : Decidable (a < b) := decideLt a b

instance (a b : α) : Decidable (a ≤ b) := decideLe a b

/-- Equality of values: the two zeros are equal, and what is no number equals nothing. -/
def same (a b : α) : Bool := decide (a ≤ b) && decide (b ≤ a)

def isZero (a : α) : Bool := same a 0

/-- The larger of two numbers, the first when they do not differ or do not compare. -/
def max (a b : α) : α := if a < b then b else a

/-- The smaller of two numbers, the first when they do not differ or do not compare. -/
def min (a b : α) : α := if b < a then b else a

/-- The number moved into an interval; the upper end wins when the ends are crossed. -/
def clamp (value low high : α) : α := min (max value low) high

/-- One, minus one or zero, as the number is above, below or neither. -/
def sign (a : α) : α := if 0 < a then 1 else if a < 0 then -1 else 0

def two : α := 1 + 1

/-- A full turn in radians. -/
def turn : α := two * pi

/-- A quarter turn in radians. -/
def quarterTurn : α := pi / two

/-- The angle in `(-π, π]` that differs by whole turns. -/
def wrap (angle : α) : α :=
  let rest := floorMod angle turn
  if pi < rest then rest - turn else rest

end Scalar

end Linkage
