import Linkage.Config
import Linkage.Node
import Linkage.Target.Label
import Linkage.Value.ElementType

/-!
# Linkage.Value — values that messages show

Arguments and results of traced calls, and arguments that were refused, are kept as values: plain data, arrays, and
snapshots of the objects of a layout.
-/

namespace Linkage

/-- The kinds of constraint. -/
inductive Kind where
  | pair
  | triple
deriving DecidableEq

/-- The kinds of constrained quantity. -/
inductive Quantity where
  | length
  | angle
deriving DecidableEq

/-- Remaining deviation of one constrained quantity. -/
structure Residual (α : Type) where
  id : Option String
  quantity : Quantity
  error : α

/-- Outcome of one run of the relaxation. -/
structure Report (α : Type) where
  iterations : Nat
  converged : Bool
  freedom : Int
  maxResidual : α
  worst : List (Residual α)

/-- What a message shows of a constraint: its kind, its identifier and its nodes. -/
structure Sketch (α : Type) where
  kind : Kind
  id : Option String
  nodes : List (Node α)

/-- Data and snapshots of objects. -/
inductive Value (α : Type) where
  | nothing
  | flag (b : Bool)
  | int (n : Int)
  /-- How often something was done, which takes too long to be a number of many digits. -/
  | count (n : Nat)
  | float (x : α)
  | text (s : String)
  | list (items : List (Value α))
  | tuple (items : List (Value α))
  | set (items : List (Value α))
  | dict (entries : List (Value α × Value α))
  /-- An array: the type of its elements, its shape, and its elements row by row. -/
  | array (type : ElementType) (shape : List Nat) (items : List (Value α))
  | node (n : Node α)
  | constraint (c : Sketch α)
  | system
  | config (c : Config α)
  | fixed (x : α)
  | current
  | combinator (name : Label α)
  /-- The text of a label. -/
  | label (name : Label α)
  | function (name : String)
  | residual (r : Residual α)
  | report (r : Report α)

instance {α : Type} : Inhabited (Value α) := ⟨.nothing⟩

/-- A text that may be missing. -/
def Value.optionalText {α : Type} : Option String → Value α
  | some s => .text s
  | none => .nothing

end Linkage
