import Linkage.Fault

/-!
# Linkage.Constraint.Shape — which nodes a constraint joins

A pair joins two nodes, a triple three.  The shape fixes which quantities a constraint has: a pair has a length and an
angle, a triple the angle at its first node.
-/

namespace Linkage

/-- The number of a node in its assembly. -/
abbrev NodeId := Nat

/-- On which side of its target line a pair may settle. -/
inductive Direction where
  | against
  | either
  | along
deriving DecidableEq

namespace Direction

def toInt : Direction → Int
  | .against => -1
  | .either => 0
  | .along => 1

/-- The direction that a value equal to minus one, zero or one stands for. -/
def ofValue? {α : Type} [Scalar α] : Value α → Option Direction
  | .flag b => some (if b then .along else .either)
  | .int n => if n = -1 then some .against else if n = 0 then some .either else if n = 1 then some .along else none
  | .float x =>
    if Scalar.same x (-1) then some .against
    else if Scalar.same x 0 then some .either
    else if Scalar.same x 1 then some .along
    else none
  | _ => none

end Direction

/-- The nodes a constraint joins. -/
inductive Shape where
  | pair (first second : NodeId) (direction : Direction)
  | triple (apex ray arm : NodeId)
deriving DecidableEq

namespace Shape

def kind : Shape → Kind
  | .pair .. => .pair
  | .triple .. => .triple

def nodes : Shape → List NodeId
  | .pair a b _ => [a, b]
  | .triple a b c => [a, b, c]

variable {α : Type} [Scalar α]

/-- The length of a pair. -/
def length (s : Shape) (node : NodeId → Node α) : Except (Fault α) α :=
  match s with
  | .pair a b _ => .ok ((node a).vectorTo (node b)).length
  | .triple .. => .error .noLength

/-- The angle of a pair against the x-axis, or of a triple at its apex. -/
def angle (s : Shape) (node : NodeId → Node α) : α :=
  match s with
  | .pair a b _ => ((node a).vectorTo (node b)).angle
  | .triple a b c => Vec.included ((node a).vectorTo (node b)) ((node a).vectorTo (node c))

/-- Whether a constraint of this shape has a quantity. -/
def has (s : Shape) : Quantity → Bool
  | .angle => true
  | .length => s.kind == .pair

end Shape

end Linkage
