import Linkage.Fault
import Linkage.Text.Layout
import Linkage.Text.Numeral
import Linkage.Value.Order

/-!
# Linkage.Value.Writing — which values can be written

Writing a value fails at an integer that has too many digits, and at lists in lists that go deeper than there is room
for: the calls that write them are nested like the lists.  Only what the form shows is looked at, in the order in which
it is written, and the first failure counts.  Snapshots of objects are always written in some form.
-/

namespace Linkage.Value

variable {α : Type} [Scalar α]

/-! ### Brief forms -/

/-- How long brief forms may get. -/
structure Limits where
  depth : Nat := 6
  items : Nat := 8
  setItems : Nat := 6
  text : Nat := 30
  integer : Nat := 40
  other : Nat := 120

/-- The limits of brief forms. -/
def limits : Limits := {}

/-- Why the brief form of a value down to a depth cannot be written. -/
def briefRefusal? : (depth : Nat) → Value α → Option (Fault α)
  | _, .int n => if Text.isTooLong n then some .integerTooLong else none
  | depth + 1, .list items | depth + 1, .tuple items => (items.take limits.items).findSome? (briefRefusal? depth)
  | depth + 1, .set items => ((sorted id items).take limits.setItems).findSome? (briefRefusal? depth)
  | depth + 1, .dict entries =>
    ((sorted Prod.fst entries).take limits.items).findSome? fun e =>
      (briefRefusal? depth e.1).or (briefRefusal? depth e.2)
  | _, _ => none

/-! ### Compact forms -/

/-- How many elements the compact form shows. -/
def shownItems : Int := 4

/-- How long the compact form of other values gets. -/
def shownLength : Int := 300

/-- Whether a value is written element by element. -/
def isSequence : Value α → Bool
  | .list _ | .tuple _ => true
  | _ => false

mutual

/-- Why the compact form of a value cannot be written, where there is room for so many layers of lists inside it. -/
def refusal? (maxItems : Int) : Value α → (room : Nat) → Option (Fault α)
  | .list items, room | .tuple items, room => (Text.firstOf maxItems (refusalsInside items room)).findSome? id
  | .array .., _ | .node _, _ | .constraint _, _ => none
  | v, _ => briefRefusal? limits.depth v

/-- Why the compact forms of the elements of a collection cannot be written, each at the limits that hold inside one. -/
def refusalsInside : List (Value α) → (room : Nat) → List (Option (Fault α))
  | [], _ => []
  | v :: rest, room =>
    (if v.isSequence && room == 0 then some .nestedTooDeep else refusal? shownItems v (room - 1)) ::
      refusalsInside rest room

end

end Linkage.Value
