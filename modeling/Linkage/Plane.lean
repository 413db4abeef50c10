import Linkage.Scalar

/-!
# Linkage.Plane — vectors of the plane

Lengths, angles against the x-axis, and signed angles between two vectors.
-/

namespace Linkage

/-- A vector of the plane. -/
structure Vec (α : Type) where
  x : α
  y : α
deriving DecidableEq

namespace Vec

variable {α : Type} [Scalar α]

def length (v : Vec α) : α := Scalar.hypot v.x v.y

/-- The angle against the x-axis. -/
def angle (v : Vec α) : α := Scalar.arctan v.y v.x

/-- The signed angle from `u` to `v`. -/
def included (u v : Vec α) : α :=
  Scalar.arctan (u.x * v.y - u.y * v.x) (u.x * v.x + u.y * v.y)

end Vec

end Linkage
