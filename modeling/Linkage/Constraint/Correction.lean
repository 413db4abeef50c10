import Linkage.Pass
import Linkage.Target.Evaluation

/-!
# Linkage.Constraint.Correction — correcting and measuring one constraint

A constraint is corrected by the passes of its targets, the angle before the length, each with the value that its
target has just then.  Its residuals are the deviations of its quantities from their targets.
-/

namespace Linkage.Act

variable {α : Type} [Scalar α]

/-- Runs a pass on the two nodes of a pair. -/
def onEnds {β : Type} (first second : NodeId) (pass : Pass α (Ends α) β) : Act α β := do
  let a ← assembly
  match pass ⟨a.node first, a.node second⟩ with
  | .ok b e =>
    change fun a => (a.setNode first e.first).setNode second e.second
    return b
  | .error fault e =>
    change fun a => (a.setNode first e.first).setNode second e.second
    throw fault

/-- Runs a pass on the three nodes of a triple. -/
def onCorner {β : Type} (apex ray arm : NodeId) (pass : Pass α (Corner α) β) : Act α β := do
  let a ← assembly
  match pass ⟨a.node apex, a.node ray, a.node arm⟩ with
  | .ok b k =>
    change fun a => ((a.setNode apex k.apex).setNode ray k.ray).setNode arm k.arm
    return b
  | .error fault k =>
    change fun a => ((a.setNode apex k.apex).setNode ray k.ray).setNode arm k.arm
    throw fault

/-- The parts of a correction that the two nodes of a pair take. -/
def sharesOf (c : ConstraintId) : Act α (α × α) := do
  let a ← assembly
  match (a.constraint c).shape with
  | .pair first second _ => ofExcept (⟨a.node first, a.node second⟩ : Ends α).shares
  | .triple .. => throw .noShares

/-- Runs a pass towards a wanted value; where none is wanted, nothing is missed. -/
def meet (pass : α → Act α Bool) : Option α → Act α Bool
  | some target => pass target
  | none => return true

/-- Corrects a constraint once.  The answer is whether every target was met within the tolerance. -/
def correctOne (c : ConstraintId) : Act α Bool := do
  let a ← assembly
  let cfg := a.configOf c
  match (a.constraint c).shape with
  | .pair first second direction =>
    let angleMet ← meet (fun target => onEnds first second (anglePass cfg direction target)) (← targetAngle c)
    let lengthMet ← meet (fun target => onEnds first second (lengthPass cfg target)) (← targetLength c)
    return lengthMet && angleMet
  | .triple apex ray arm =>
    match (a.constraint c).angleTarget with
    | none => return true
    | some t =>
      if (⟨a.node apex, a.node ray, a.node arm⟩ : Corner α).isFlat then return true
      else onCorner apex ray arm (rayPass cfg (← evaluate c t))

/-- The deviation of a pair from its wanted length, if it has one. -/
def lengthResidual (c : ConstraintId) : Act α (List (Residual α)) := do
  let k := (← assembly).constraint c
  match k.shape.kind with
  | .triple => return []
  | .pair =>
    match ← targetLength c with
    | none => return []
    | some target => return [⟨k.id, .length, (← ownLength c) - target⟩]

/-- The deviation of a constraint from its wanted angle, if it has one. -/
def angleResidual (c : ConstraintId) : Act α (List (Residual α)) := do
  let k := (← assembly).constraint c
  match ← targetAngle c with
  | none => return []
  | some target => return [⟨k.id, .angle, Scalar.wrap ((← ownAngle c) - target)⟩]

/-- The deviations of a constraint, the length before the angle. -/
def residualsOf (c : ConstraintId) : Act α (List (Residual α)) := do
  let ofLength ← lengthResidual c
  return ofLength ++ (← angleResidual c)

/-- A constraint in numbers. -/
def describe (c : ConstraintId) : Act α (Description α) := do
  let a ← assembly
  let k := a.constraint c
  match k.shape with
  | .pair first second direction =>
    let ends : Ends α := ⟨a.node first, a.node second⟩
    let (share₁, share₂) ← ofExcept ends.shares
    let inverse₁ ← ofExcept ends.first.inverseMass
    let inverse₂ ← ofExcept ends.second.inverseMass
    let length := ends.vector.length
    let angle := ends.vector.angle
    let lengthGap := (← targetLength c).map (· - length)
    let angleGap := (← targetAngle c).map fun target => Scalar.degrees (Scalar.wrap (target - angle))
    return .pair k.id inverse₁ inverse₂ share₁ share₂ length (Scalar.degrees angle) lengthGap angleGap
      direction.toInt
  | .triple apex ray arm =>
    let inverse₁ ← ofExcept (a.node apex).inverseMass
    let inverse₂ ← ofExcept (a.node ray).inverseMass
    let inverse₃ ← ofExcept (a.node arm).inverseMass
    let angle := a.angle c
    let target := (← targetAngle c).map fun target =>
      (Scalar.degrees target, Scalar.degrees (Scalar.wrap (target - angle)))
    return .triple k.id inverse₁ inverse₂ inverse₃ (Scalar.degrees angle) target

end Linkage.Act
