import Linkage.Number.Binary
import Linkage.Scalar

/-!
# Linkage.Scalar.Double — doubles as scalars

The remainder is exact, taken on the binary fractions and rounded only where the divisor is added to mend its sign.
The length of a vector is exact along the axes and does not overflow or vanish before the result does.  Its angle is that
of the hardware, which is known to be an angle and nothing else.
-/

namespace Linkage.Number

/-- The remainder of two magnitudes on their common binary grid. -/
def remainder (a b : Binary) : Nat × Int :=
  let exponent := min a.exponent b.exponent
  let p := a.significand * Nat.pow 2 (a.exponent - exponent).toNat
  let q := b.significand * Nat.pow 2 (b.exponent - exponent).toNat
  (p % q, exponent)

/-- The remainder with the sign of the divisor: undefined for an infinite dividend or a zero divisor, and a zero has
the divisor's sign too. -/
def floorMod (x y : Float) : Float :=
  match read x, read y with
  | .finite a, .finite b =>
    if b.significand = 0 then 0.0 / 0.0
    else
      let (size, exponent) := remainder a b
      let rest := if x.abs < y.abs then x else (⟨a.negative, size, exponent⟩ : Binary).toFloat
      if size = 0 then (if b.negative then -0.0 else 0.0)
      else if a.negative != b.negative then rest + y
      else rest
  | .finite a, .infinite negative =>
    if a.significand = 0 then (if negative then -0.0 else 0.0)
    else if a.negative != negative then y
    else x
  | _, _ => 0.0 / 0.0

/-- A component above this has a square that may overflow, `1e150`. -/
def largeComponent : Float := 1e150

/-- A component below this has a square that may vanish, `1e-150`. -/
def smallComponent : Float := 1e-150

/-- The unit for large components, `2 ^ 600`. -/
def largeUnit : Float := 4.149515568880993e180

/-- The unit for small components, `2 ^ -600`. -/
def smallUnit : Float := 2.409919865102884e-181

/-- Length of a vector whose squares are formed in units of `unit`, a power of two. -/
def hypotIn (unit x y : Float) : Float :=
  let p := x / unit
  let q := y / unit
  Float.sqrt (p * p + q * q) * unit

/-- Length of a vector: infinite as soon as one component is, the other component when one is zero.  Components whose
squares could overflow or vanish are measured in a unit of their own. -/
def hypot (x y : Float) : Float :=
  let a := x.abs
  let b := y.abs
  let large := if a < b then b else a
  if a.isInf || b.isInf then 1.0 / 0.0
  else if a == 0.0 then b
  else if b == 0.0 then a
  else if largeComponent < large then hypotIn largeUnit a b
  else if large < smallComponent then hypotIn smallUnit a b
  else hypotIn 1.0 a b

/-- More than half a turn, in radians. -/
def beyondHalfTurn : Float := 4.0

/-- The angle of a vector.  No angle is more than half a turn in size; one that were would be no number. -/
def arctan (y x : Float) : Float :=
  let angle := Float.atan2 y x
  if angle < -beyondHalfTurn || beyondHalfTurn < angle then 0.0 / 0.0 else angle

end Linkage.Number

namespace Linkage

/-- The ratio of a circle's circumference to its diameter, rounded to a double. -/
def Number.pi : Float := 3.141592653589793

instance : Scalar Float where
  zero := 0.0
  one := 1.0
  decideLt a b := inferInstanceAs (Decidable (a < b))
  decideLe a b := inferInstanceAs (Decidable (a ≤ b))
  abs := Float.abs
  sqrt := Float.sqrt
  hypot := Number.hypot
  arctan := Number.arctan
  cos := Float.cos
  sin := Float.sin
  floorMod := Number.floorMod
  pi := Number.pi
  epsilon := 2.220446049250313e-16
  rootEpsilon := 1.4901161193847656e-08
  degrees := fun x => x * (180.0 / Number.pi)
  isFinite := Float.isFinite
  isInfinite := Float.isInf
  ofInt? := Number.ofInt?
  truncate? := Number.truncate?

end Linkage
