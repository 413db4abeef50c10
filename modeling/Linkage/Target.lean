import Linkage.Constraint.Shape
import Linkage.Numeral.Conversion

/-!
# Linkage.Target — wanted lengths and angles

A target is a fixed number or is computed whenever it is read.  What a user gives is a `Spec`; coercing it refuses what
is no target, and leaves one marker, *current*, for whoever stores the target to replace by the value it sees.
-/

namespace Linkage

/-- A reference to a constraint by its identifier, for one of its quantities.  The key tells references apart that
read the same: what has been found is remembered for each of them on its own. -/
structure Reference where
  key : Nat
  ref : String
  quantity : Quantity

/-- What a callable target may read: all nodes, and the shape of the constraint that owns the target.  It may also
answer differently from one reading to the next, so it sees how many readings of callables came before. -/
structure Sight (α : Type) where
  node : NodeId → Node α
  owner : Shape
  moment : Nat

namespace Sight

variable {α : Type} [Scalar α]

def length (s : Sight α) : Except (Fault α) α := s.owner.length s.node

def angle (s : Sight α) : α := s.owner.angle s.node

end Sight

/-- How a computed target is computed from the owner's quantity or from that of another constraint. -/
inductive Formula (α : Type) where
  | ownLengthMin (least : α)
  | ownLengthMax (most : α)
  | ownLengthRange (least most : α)
  | lengthOf (ref : Reference) (factor : α)
  | ownAngleMin (least : α)
  | ownAngleMax (most : α)
  | ownAngleRange (least most : α)
  | angleOf (ref : Reference) (offset : α)
  /-- The owner's angle, kept in an interval around that of another. -/
  | around (ref : Reference) (least most : α)
  /-- The owner's angle, kept at a quarter turn or more from that of another, on either side. -/
  | obtuse (ref : Reference)
  /-- An angle between those of two others. -/
  | between (first second : Reference) (scale : α)
  | callable (read : Sight α → Except (Fault α) α)

/-- A target computed whenever it is read. -/
structure Combinator (α : Type) where
  name : Label α
  formula : Formula α

/-- A stored target. -/
inductive Target (α : Type) where
  | fixed (value : α)
  | computed (c : Combinator α)

/-- A target as a user gives it. -/
inductive Spec (α : Type) where
  | absent
  | target (t : Target α)
  | current
  | number (n : Numeral α)
  | marker (word : String)
  | callable (name : Option String) (read : Sight α → Except (Fault α) α)
  /-- A value of a type that no target has. -/
  | unsupported (shown : Value α) (type : String)

/-- What a spec stands for. -/
inductive Coerced (α : Type) where
  | absent
  | current
  | target (t : Target α)

namespace Combinator

variable {α : Type}

/-- A computed target around a callable: an empty or missing name gives way to the callable's own. -/
def ofCallable (name own : Option String) (read : Sight α → Except (Fault α) α) : Combinator α :=
  let chosen := match name with
    | some given => if given.isEmpty then own else some given
    | none => own
  ⟨.custom (chosen.getD "combinator"), .callable read⟩

end Combinator

namespace Spec

variable {α : Type} [Scalar α]

/-- The words that stand for the current value, in any case of their letters. -/
def isCurrentMarker (word : String) : Bool :=
  let lower := String.ofList (word.toList.map Char.toLower)
  lower = "const" || lower = "current"

/-- The target that a spec stands for, or why it stands for none. -/
def coerce : Spec α → Except (Fault α) (Coerced α)
  | .absent => .ok .absent
  | .target t => .ok (.target t)
  | .current => .ok .current
  | .number (.flag b) => .error (.booleanTarget b)
  | .number n => (fun x => .target (.fixed x)) <$> n.toScalar
  | .marker word => if isCurrentMarker word then .ok .current else .error (.unknownMarker word)
  | .callable name read => .ok (.target (.computed (.ofCallable none name read)))
  | .unsupported _ type => .error (.unsupportedTarget type)

/-- The spec as a message shows it. -/
def value : Spec α → Value α
  | .absent => .nothing
  | .target (.fixed x) => .fixed x
  | .target (.computed c) => .combinator c.name
  | .current => .current
  | .number n => n.value
  | .marker word => .text word
  | .callable name _ => .function (name.getD "")
  | .unsupported shown _ => shown

end Spec

end Linkage
