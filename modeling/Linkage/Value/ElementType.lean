import Linkage.Number.Precision

/-!
# Linkage.Value.ElementType — the types of array elements

The elements of an array are truth values, integers of a size, or numbers of a precision.  Each type is shown under one
name and known under several.
-/

namespace Linkage

open Number (Precision)

/-- The type of the elements of an array. -/
inductive ElementType where
  | flag
  | integer (signed : Bool) (width : Nat)
  | float (precision : Precision)
deriving DecidableEq

namespace ElementType

/-- The name under which a type is shown. -/
def name : ElementType → String
  | .flag => "bool"
  | .integer signed width => (if signed then "int" else "uint") ++ toString width
  | .float precision => "float" ++ toString precision.width

/-- The types with all of their names: for numbers the full one, the letter of their kind with their size in bytes, and
those of the machine types. -/
def names : List (ElementType × List String) :=
  [(.flag, ["bool", "bool_", "b1", "?"]),
    (.integer true 8, ["int8", "i1", "byte", "b"]),
    (.integer true 16, ["int16", "i2", "short", "h"]),
    (.integer true 32, ["int32", "i4", "intc", "i"]),
    (.integer true 64, ["int64", "i8", "int", "int_", "intp", "long", "l"]),
    (.integer false 8, ["uint8", "u1", "ubyte", "B"]),
    (.integer false 16, ["uint16", "u2", "ushort", "H"]),
    (.integer false 32, ["uint32", "u4", "uintc", "I"]),
    (.integer false 64, ["uint64", "u8", "uint", "uintp", "ulong", "L"]),
    (.float .half, ["float16", "f2", "half", "e"]),
    (.float .single, ["float32", "f4", "single", "f"]),
    (.float .double, ["float64", "f8", "float", "double", "d"])]

/-- The marks for the order of bytes that may precede a short name. -/
def orderMarks : List Char := ['<', '=', '|']

/-- The type with a name. -/
def ofName? (name : String) : Option ElementType :=
  let bare := match name.toList with
    | c :: rest => if orderMarks.contains c then String.ofList rest else name
    | [] => name
  (names.find? fun t => t.2.contains bare).map Prod.fst

/-- Whether the written elements show that this is their type. -/
def isImplied (type : ElementType) : Bool :=
  type == .flag || type == .integer true 64 || type == .float .double

end ElementType

end Linkage
