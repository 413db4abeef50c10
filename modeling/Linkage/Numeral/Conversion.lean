import Linkage.Fault
import Linkage.Text.Numeral

/-!
# Linkage.Numeral.Conversion — numbers of one kind from numbers as they are given

Truth values, integers and scalars convert as one expects.  What is not finite has no integer, and an integer that no
scalar reaches is refused, as is one with more digits than are written: it is beyond every double.
-/

namespace Linkage.Numeral

variable {α : Type}

def value : Numeral α → Value α
  | .flag b => .flag b
  | .int n => .int n
  | .float x => .float x

/-- Whether a number is an integer with more digits than are written. -/
def isTooLong : Numeral α → Bool
  | .int n => Text.isTooLong n
  | _ => false

variable [Scalar α]

/-- The integer given, or a scalar with its fraction cut off. -/
def toInt : Numeral α → Except (Fault α) Int
  | .flag b => .ok (if b then 1 else 0)
  | .int n => .ok n
  | .float x => Scalar.truncate x

def toScalar : Numeral α → Except (Fault α) α
  | .flag b => .ok (if b then 1 else 0)
  | .int n => if Text.isTooLong n then .error .integerTooLarge else Scalar.ofInt n
  | .float x => .ok x

end Linkage.Numeral
