import Linkage.Session

/-!
# Linkage.Constraint.Creation — making constraints and storing their targets

A constraint is checked before it is made, and its targets are coerced before they are stored, so a refusal leaves the
assembly as it was.  The marker *current* is replaced by the value that the constraint has at that moment.
-/

namespace Linkage

variable {α : Type} [Scalar α]

/-- The target to store for a spec, when the quantity has the value `now`. -/
def Spec.settle (spec : Spec α) (now : Except (Fault α) α) : Except (Fault α) (Option (Target α)) := do
  match ← spec.coerce with
  | .absent => return none
  | .current => return some (.fixed (← now))
  | .target t => return some t

/-- What may be given for a new pair besides its nodes. -/
structure PairOptions (α : Type) where
  id : Option (Option String) := none
  length : Option (Spec α) := none
  angle : Option (Spec α) := none
  direction : Option (Value α) := none

/-- What may be given for a new triple besides its nodes. -/
structure TripleOptions (α : Type) where
  id : Option (Option String) := none
  angle : Option (Spec α) := none

namespace PairOptions

/-- The options that were given, by name. -/
def named (o : PairOptions α) : List (String × Value α) :=
  (o.id.map fun id => ("id", .optionalText id)).toList ++ (o.length.map fun spec => ("length", spec.value)).toList
    ++ (o.angle.map fun spec => ("angle", spec.value)).toList
    ++ (o.direction.map fun value => ("directional", value)).toList

end PairOptions

namespace TripleOptions

/-- The options that were given, by name. -/
def named (o : TripleOptions α) : List (String × Value α) :=
  (o.id.map fun id => ("id", .optionalText id)).toList ++ (o.angle.map fun spec => ("angle", spec.value)).toList

end TripleOptions

namespace Constraint

/-- A new pair of two nodes. -/
def pair (node : NodeId → Node α) (first second : NodeId) (o : PairOptions α) :
    Except (Fault α) (Constraint α) := do
  if first = second then throw (.selfConnected o.id.join)
  let given := o.direction.getD (.int 0)
  match Direction.ofValue? given with
  | none => throw (.showing (.badDirection o.id.join) given)
  | some direction =>
    let shape := Shape.pair first second direction
    let length ← (o.length.getD .absent).settle (shape.length node)
    let angle ← (o.angle.getD .absent).settle (.ok (shape.angle node))
    return ⟨o.id.join, shape, none, [], length, angle⟩

/-- A new triple of three nodes. -/
def triple (node : NodeId → Node α) (apex ray arm : NodeId) (o : TripleOptions α) :
    Except (Fault α) (Constraint α) := do
  if apex = ray ∨ apex = arm ∨ ray = arm then throw (.notDistinct o.id.join)
  let shape := Shape.triple apex ray arm
  let angle ← (o.angle.getD .absent).settle (.ok (shape.angle node))
  return ⟨o.id.join, shape, none, [], none, angle⟩

end Constraint

namespace Act

/-- Enters a new constraint in the assembly. -/
def enter (k : Constraint α) : Act α ConstraintId := do
  let c := (← assembly).constraints.size
  change fun a => { a with constraints := a.constraints.push k }
  return c

/-- Makes a pair that no system has registered. -/
def newPair (first second : NodeId) (o : PairOptions α) : Act α ConstraintId := do
  enter (← ofExcept (Constraint.pair (← assembly).node first second o))

/-- Makes a triple that no system has registered; triples are deprecated. -/
def newTriple (apex ray arm : NodeId) (o : TripleOptions α) : Act α ConstraintId := do
  notice .triple
  enter (← ofExcept (Constraint.triple (← assembly).node apex ray arm o))

/-- Assigns the wanted length of a pair. -/
def setLengthTarget (c : ConstraintId) (spec : Spec α) : Act α Unit := do
  let a ← assembly
  let k := a.constraint c
  match k.shape with
  | .triple .. => throw .noLengthTarget
  | .pair .. =>
    let target ← ofExcept (spec.settle (a.length c))
    change fun a => a.setConstraint c { k with lengthTarget := target }

/-- Assigns the wanted angle of a constraint. -/
def setAngleTarget (c : ConstraintId) (spec : Spec α) : Act α Unit := do
  let a ← assembly
  let k := a.constraint c
  let target ← ofExcept (spec.settle (.ok (a.angle c)))
  change fun a => a.setConstraint c { k with angleTarget := target }

end Act

end Linkage
