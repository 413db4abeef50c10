import Linkage.Fault

/-!
# Linkage.Constraint.Outline — a constraint of no kind

An outline has what all constraints have, an identifier and perhaps a wanted angle, but joins no nodes.  Everything
that needs the nodes is left to the kinds of constraint, so an outline does not implement it.
-/

namespace Linkage

/-- A constraint that joins no nodes. -/
structure Outline (α : Type) where
  id : Option String
  angleTarget : Option α

namespace Outline

variable {α : Type}

/-- The nodes, the angle and all that is computed from them. -/
def ofNodes {β : Type} (_ : Outline α) : Except (Fault α) β := .error .notImplemented

/-- An outline belongs to no system, so it finds no other constraint. -/
def resolve {β : Type} (o : Outline α) (ref : String) : Except (Fault α) β := .error (.unregistered o.id ref)

end Outline

end Linkage
