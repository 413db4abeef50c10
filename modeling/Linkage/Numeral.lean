import Linkage.Scalar

/-!
# Linkage.Numeral — numbers as they are given

A number may be given as a truth value, as an integer of any size, or as a scalar.  Each can be compared with zero and
counted up to as it is.
-/

namespace Linkage

/-- A number as it is given. -/
inductive Numeral (α : Type) where
  | flag (b : Bool)
  | int (n : Int)
  | float (x : α)

namespace Numeral

variable {α : Type} [Scalar α]

/-- The number of counts, from zero on, that lie below; what is no number has none below. -/
def countBelow : Numeral α → Int
  | .flag b => if b then 1 else 0
  | .int n => n
  | .float x =>
    match Scalar.truncate? x with
    | none => if 0 < x then Int.pow 2 64 else 0
    | some n =>
      match (Scalar.ofInt? n : Option α) with
      | some whole => if whole < x then n + 1 else n
      | none => n

def isPositive : Numeral α → Bool
  | .flag b => b
  | .int n => 0 < n
  | .float x => (0 : α) < x

end Numeral

end Linkage
