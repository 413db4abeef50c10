import Linkage.Fault
import Linkage.Value.Text

/-!
# Linkage.Fault.Text — the texts of failures

Each cause of failure has one text, which names the constraints involved and shows what was refused.
-/

namespace Linkage

open Text (enclosed quoted quotedOrNone)

namespace Value

/-- A value that is no collection in full. -/
def fullAtom : Value Float → String
  | .text s => quoted s
  | .int n => toString n
  | v => brief limits.depth v

mutual

/-- A value in full, as a refusal shows it; collections are shown in the order they have. -/
def full : Value Float → String
  | .list items => enclosed "[" "]" (fullAll items)
  | .tuple items => enclosed "(" (if items.length = 1 then ",)" else ")") (fullAll items)
  | .set items => if items.isEmpty then "set()" else enclosed "\x7b" "\x7d" (fullAll items)
  | .dict entries => enclosed "\x7b" "\x7d" (fullEntries entries)
  | v => fullAtom v

/-- The full forms of the elements of a collection. -/
def fullAll : List (Value Float) → List String
  | [] => []
  | v :: rest => full v :: fullAll rest

/-- The full forms of the entries of a dictionary. -/
def fullEntries : List (Value Float × Value Float) → List String
  | [] => []
  | (key, v) :: rest => (full key ++ ": " ++ full v) :: fullEntries rest

end

end Value

/-- The text of a failure. -/
def Fault.message : Fault Float → String
  | .selfConnected id => "constraint " ++ quotedOrNone id ++ " connects a node to itself"
  | .notDistinct id => "constraint " ++ quotedOrNone id ++ " needs three distinct nodes"
  | .badDirection id got =>
    "constraint " ++ quotedOrNone id ++ ": directional must be -1, 0 or 1 (got " ++ got.full ++ ")"
  | .booleanTarget got => "boolean is not a valid target value: " ++ Text.truth got
  | .unknownMarker got => "unknown target marker " ++ quoted got
  | .unsupportedTarget type => "unsupported target type " ++ type
  | .foreignOwner id => "constraint " ++ quotedOrNone id ++ " is already registered with another System"
  | .duplicateId id => "duplicate constraint id " ++ quoted id
  | .unregistered id ref =>
    "constraint " ++ quotedOrNone id ++ " is not registered with a System; cannot resolve reference " ++ quoted ref
  | .unknownReference id ref =>
    "constraint " ++ quotedOrNone id ++ " references unknown constraint " ++ quoted ref
  | .unreadable id ref quantity found =>
    "constraint " ++ quotedOrNone id ++ " reads the " ++ quantity.text ++ " of " ++ quoted ref ++ ", but a "
      ++ found.text ++ " has no " ++ quantity.text
  | .tooFewSweeps got => "itrmax must be at least 1 (got " ++ got.full ++ ")"
  | .badTolerance got => "lentol must be positive (got " ++ got.full ++ ")"
  | .badReach got => "lenmax must be positive (got " ++ got.full ++ ")"
  | .integerOfInfinity => "cannot convert float infinity to integer"
  | .integerOfNaN => "cannot convert float NaN to integer"
  | .integerTooLarge => "int too large to convert to float"
  | .zeroDivision => "float division by zero"
  | .angleDomain => "math domain error"
  | .openChain => "four-bar lengths do not close at the start position"
  | .shortCoupler => "coupler must be longer than the crank"
  | .noSteps => "steps must be positive"
  | .raised message => message
  | .notImplemented => ""
  | .noLength => "'TripleConstraint' object has no attribute 'length'"
  | .noLengthTarget => "property 'len_target' of 'TripleConstraint' object has no setter"
  | .noShares => "'TripleConstraint' object has no attribute 'mass_shares'"
  | .unknownLevel name => "Unknown level: " ++ quoted name
  | .integerTooLong =>
    "Exceeds the limit (" ++ toString Text.maxIntegerDigits
      ++ " digits) for integer string conversion; use sys.set_int_max_str_digits() to increase the limit"
  | .nestedTooDeep => "maximum recursion depth exceeded"

end Linkage
