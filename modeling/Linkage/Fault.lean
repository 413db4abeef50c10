import Linkage.Text.Numeral
import Linkage.Value

/-!
# Linkage.Fault — causes of failure

Every refusal and every failed computation has a cause; its text and its category are functions of the cause.
-/

namespace Linkage

namespace Value

variable {α : Type}

mutual

/-- Whether an integer with too many digits stands anywhere in a value, which cannot be written in full then. -/
def isOverlong : Value α → Bool
  | .int n => Text.isTooLong n
  | .list items | .tuple items | .set items => anyOverlong items
  | .dict entries => entriesOverlong entries
  | .config ⟨.int n, _, _⟩ => Text.isTooLong n
  | _ => false

/-- Whether a value of a list is too long. -/
def anyOverlong : List (Value α) → Bool
  | [] => false
  | v :: rest => v.isOverlong || anyOverlong rest

/-- Whether a key or a value of a dictionary is too long. -/
def entriesOverlong : List (Value α × Value α) → Bool
  | [] => false
  | (key, v) :: rest => key.isOverlong || v.isOverlong || entriesOverlong rest

end

end Value

/-- Why an operation failed. -/
inductive Fault (α : Type) where
  /-- Both ends of a pair are one node. -/
  | selfConnected (id : Option String)
  /-- Two nodes of a triple are one. -/
  | notDistinct (id : Option String)
  | badDirection (id : Option String) (got : Value α)
  | booleanTarget (got : Bool)
  | unknownMarker (got : String)
  | unsupportedTarget (type : String)
  | foreignOwner (id : Option String)
  | duplicateId (id : String)
  /-- A constraint of no system cannot look up another. -/
  | unregistered (id : Option String) (ref : String)
  | unknownReference (id : Option String) (ref : String)
  /-- A reference reads a quantity that the constraint found does not have. -/
  | unreadable (id : Option String) (ref : String) (quantity : Quantity) (found : Kind)
  | tooFewSweeps (got : Value α)
  | badTolerance (got : Value α)
  | badReach (got : Value α)
  | integerOfInfinity
  | integerOfNaN
  | integerTooLarge
  | zeroDivision
  /-- Sine or cosine of an infinity. -/
  | angleDomain
  /-- The lengths of a four-bar linkage do not close. -/
  | openChain
  | shortCoupler
  | noSteps
  /-- Raised by a callable target. -/
  | raised (message : String)
  | notImplemented
  /-- A triple has no length. -/
  | noLength
  | noLengthTarget
  /-- A triple has no mass shares of two ends. -/
  | noShares
  | unknownLevel (name : String)
  /-- An integer has more digits than are written. -/
  | integerTooLong
  /-- Lists inside lists go deeper than the calls that write them can. -/
  | nestedTooDeep

/-- What a failure is a matter of. -/
inductive Fault.Category where
  | definition
  /-- A reference to that constraint cannot be followed. -/
  | reference (ref : String)
  | value
  | overflow
  | zeroDivision
  | attribute
  | notImplemented
  | runtime
  | recursion

variable {α : Type}

/-- A refusal that shows what was given, unless that cannot be written. -/
def Fault.showing (refusal : Value α → Fault α) (got : Value α) : Fault α :=
  if got.isOverlong then .integerTooLong else refusal got

def Fault.category : Fault α → Fault.Category
  | .selfConnected _ | .notDistinct _ | .badDirection _ _ => .definition
  | .booleanTarget _ | .unknownMarker _ | .unsupportedTarget _ => .definition
  | .foreignOwner _ | .duplicateId _ => .definition
  | .unregistered _ ref | .unknownReference _ ref | .unreadable _ ref _ _ => .reference ref
  | .tooFewSweeps _ | .badTolerance _ | .badReach _ => .value
  | .integerOfNaN | .angleDomain | .openChain | .shortCoupler | .noSteps | .unknownLevel _ => .value
  | .integerTooLong => .value
  | .integerOfInfinity | .integerTooLarge => .overflow
  | .zeroDivision => .zeroDivision
  | .raised _ => .runtime
  | .notImplemented => .notImplemented
  | .nestedTooDeep => .recursion
  | .noLength | .noLengthTarget | .noShares => .attribute

/-! ### Arithmetic that can fail -/

namespace Scalar

variable [Scalar α]

/-- The quotient, unless the divisor is zero. -/
def divide (a b : α) : Except (Fault α) α :=
  if isZero b then .error .zeroDivision else .ok (a / b)

/-- Cosine and sine, unless the angle is infinite. -/
def heading (angle : α) : Except (Fault α) (Vec α) :=
  if isInfinite angle then .error .angleDomain else .ok ⟨cos angle, sin angle⟩

/-- The number of an integer value, unless that is too large. -/
def ofInt (n : Int) : Except (Fault α) α :=
  match ofInt? n with
  | some x => .ok x
  | none => .error .integerTooLarge

/-- The integer left when the fraction is cut off, unless the number is not finite. -/
def truncate (x : α) : Except (Fault α) Int :=
  match truncate? x with
  | some n => .ok n
  | none => .error (if isInfinite x then .integerOfInfinity else .integerOfNaN)

end Scalar

end Linkage
