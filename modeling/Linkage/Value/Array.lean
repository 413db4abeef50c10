import Linkage.Number.Text
import Linkage.Text.Layout
import Linkage.Text.Numeral
import Linkage.Value

/-!
# Linkage.Value.Array — arrays and how they are written in full

An array holds elements of one type by rows.  In full it is written with every element on the same width: whole
numbers right-aligned, other numbers around a common point with at most eight places, and all of them in scientific
notation as soon as one is very large, very small, or more than a thousand times another.  Of a large array only the
edges are written, and only what is written decides on the form.
-/

namespace Linkage

namespace Value

/-- The number that an element is given as: a text is read, and what is missing is no number. -/
def given : Value Float → Float
  | .flag b => if b then 1.0 else 0.0
  | .int n => (Number.ofInt? n).getD (if n < 0 then -(1.0 / 0.0) else 1.0 / 0.0)
  | .float x => x
  | .text s => (Text.real? s).getD (0.0 / 0.0)
  | _ => 0.0 / 0.0

/-- An element as a given type holds it. -/
def castTo (type : ElementType) (v : Value Float) : Value Float :=
  match type, v with
  | .flag, .nothing => .flag false
  | .flag, _ => .flag !(v.given == 0.0)
  | .integer _ _, .int n => .int n
  | .integer _ _, _ => .int ((Number.truncate? v.given).getD 0)
  | .float precision, _ => .float (precision.nearest v.given)

mutual

/-- The lengths of the lists that a nested list is made of, taken along the first elements. -/
def shapeOf : Value Float → List Nat
  | .list items => items.length :: shapeOfFirst items
  | _ => []

/-- The lengths inside the first element of a list. -/
def shapeOfFirst : List (Value Float) → List Nat
  | [] => []
  | v :: _ => shapeOf v

end

mutual

/-- The elements of a nested list, row by row. -/
def flatten : Value Float → List (Value Float)
  | .list items => flattenAll items
  | v => [v]

/-- The elements of several nested lists. -/
def flattenAll : List (Value Float) → List (Value Float)
  | [] => []
  | v :: rest => flatten v ++ flattenAll rest

end

/-- The array of a nested list. -/
def arrayOf (type : ElementType) (nested : Value Float) : Value Float :=
  .array type (shapeOf nested) ((flatten nested).map (castTo type))

/-- The array of that shape with every element zero. -/
def zeros (type : ElementType) (shape : List Nat) : Value Float :=
  .array type shape (List.replicate (shape.foldl (· * ·) 1) (castTo type (.int 0)))

/-- The elements as nested lists of a shape. -/
def nest : List Nat → List (Value Float) → Value Float
  | [], items => items.headD .nothing
  | length :: rest, items =>
    let size := rest.foldl (· * ·) 1
    .list ((List.range length).map fun i => nest rest ((items.drop (i * size)).take size))

end Value

/-! ### Elements -/

namespace ArrayText

open Number (Binary Decimal Precision)

/-- Most places after the point. -/
def places : Nat := 8

/-- The fewest digits of a magnitude that read back in its precision, or fewer: the nearest that fit the places after
the point of a notation with that exponent. -/
def digitsFor (p : Precision) (fractional : Bool) (b : Binary) : Decimal :=
  let d := (b.round p).shortestIn p
  let shown : Int := if fractional then d.digits.length - 1 - d.exponent else (d.digits.length : Int) - 1
  if shown ≤ places then d
  else if fractional then
    let n := b.toPlaces places
    if n = 0 then ⟨['0'], 0⟩
    else
      let digits := Nat.toDigits 10 n
      (⟨digits, (digits.length : Int) - 1 - places⟩ : Decimal).trim
  else (b.toPrecision (places + 1)).trim

/-- Whole part and fraction of a positional number. -/
def positionalParts (p : Precision) (b : Binary) : String × String :=
  let sign := if b.negative then "-" else ""
  match (digitsFor p true b).positional.splitOn "." with
  | [whole, fraction] => (sign ++ whole, fraction)
  | parts => (sign ++ parts.headD "", "")

/-- First digit, fraction and exponent of a number in scientific notation. -/
def scientificParts (p : Precision) (b : Binary) : String × String × String :=
  let d := digitsFor p false b
  let size := toString d.exponent.natAbs
  ((if b.negative then "-" else "") ++ String.ofList (d.digits.take 1), String.ofList (d.digits.drop 1),
    (if d.exponent < 0 then "-" else "+") ++ (if size.length < 2 then "0" ++ size else size))

def padRight (width : Nat) (fill : Char) (s : String) : String :=
  s ++ String.ofList (List.replicate (width - s.length) fill)

def widest (texts : List String) : Nat := texts.foldl (fun w s => max w s.length) 0

/-- From here on numbers of a precision are very large: where they have more digits than are kept or shown. -/
def largeFrom (p : Precision) : Float := Float.ofNat (Nat.pow 10 (min places p.decimals))

/-- Below this numbers are very small. -/
def smallBelow : Float := 0.0001

/-- A number more than this many times another one differs much from it. -/
def spread : Float := 1000.0

/-- Whether the magnitudes call for scientific notation; the bounds and quotients are themselves of the precision. -/
def needsExponent (p : Precision) (sizes : List Float) : Bool :=
  match sizes.filter fun x => !(x == 0.0) with
  | [] => false
  | x :: rest =>
    let large := rest.foldl (fun m y => if m < y then y else m) x
    let small := rest.foldl (fun m y => if y < m then y else m) x
    largeFrom p ≤ large || small < p.nearest smallBelow || spread < p.nearest (large / small)

/-- How an element that is not finite is written. -/
def special : Number.Reading → String
  | .undefined => "nan"
  | .infinite negative => if negative then "-inf" else "inf"
  | .finite _ => ""

/-- Numbers written to one width. -/
def numbers (p : Precision) (xs : List Float) : List String :=
  let readings := xs.map Number.read
  let finite := readings.filterMap fun r => match r with
    | .finite b => some b
    | _ => none
  let specialWidth : Nat := widest (readings.map special)
  if needsExponent p (xs.filterMap fun x => if x.isFinite then some x.abs else none) then
    let parts := finite.map (scientificParts p)
    let fraction := widest (parts.map fun p => p.2.1)
    let exponent := widest (parts.map fun p => p.2.2)
    let whole := max (widest (parts.map fun p => p.1)) (specialWidth - (fraction + exponent + 2))
    let width := whole + fraction + exponent + 2
    readings.map fun r => match r with
      | .finite b =>
        let (first, rest, e) := scientificParts p b
        let digits := e.toList.drop 1
        let size := List.replicate (exponent - 1 - digits.length) '0' ++ digits
        Text.padLeft whole first ++ "." ++ padRight fraction '0' rest ++ "e"
          ++ String.ofList (e.toList.take 1 ++ size)
      | r => Text.padLeft width (special r)
  else
    let parts := finite.map (positionalParts p)
    let fraction := widest (parts.map Prod.snd)
    let whole := max (widest (parts.map Prod.fst)) (specialWidth - (fraction + 1))
    let width := whole + fraction + 1
    readings.map fun r => match r with
      | .finite b =>
        let (first, rest) := positionalParts p b
        Text.padLeft whole first ++ "." ++ padRight fraction ' ' rest
      | r => Text.padLeft width (special r)

/-- Elements written to one width; a truth value that stands alone has no blank before it. -/
def elements (type : ElementType) (alone : Bool) (items : List (Value Float)) : List String :=
  match type with
  | .flag => items.map fun v => match v with
    | .flag true => if alone then "True" else " True"
    | _ => "False"
  | .integer _ _ =>
    let texts := items.map fun v => match v with
      | .int n => toString n
      | _ => ""
    texts.map (Text.padLeft (widest texts))
  | .float p => numbers p (items.map fun v => match v with
    | .float x => x
    | _ => 0.0)

/-! ### Rows -/

/-- Arrays with more elements than this are shown by the elements at their edges. -/
def mostShown : Nat := 1000

/-- How many elements an edge has along an axis. -/
def edge : Nat := 3

/-- What is shown along an axis: how many rows, and whether rows between the edges are left out. -/
structure Axis where
  shown : Nat
  gap : Bool

/-- What is shown along an axis of a length. -/
def axis (summary : Bool) (length : Nat) : Axis :=
  if summary && 2 * edge < length then ⟨2 * edge, true⟩ else ⟨length, false⟩

/-- The elements that are shown of an array of a shape. -/
def pick (summary : Bool) {β : Type} : List Nat → List β → List β
  | [], items => items.take 1
  | length :: rest, items =>
    let size := rest.foldl (· * ·) 1
    let row := fun i => pick summary rest ((items.drop (i * size)).take size)
    if (axis summary length).gap then
      (List.range edge).flatMap row ++ (List.range edge).flatMap fun i => row (length - edge + i)
    else (List.range length).flatMap row

/-- The rows along an axis, with a mark for those left out. -/
def markGap (a : Axis) (parts : List String) : List String :=
  if a.gap then parts.take edge ++ "..." :: parts.drop edge else parts

/-- Words with commas on lines of a width; further lines start with the indent. -/
def wrapWords (width : Nat) (indent : String) : (text line : String) → List String → String
  | text, line, [] => text ++ line
  | text, line, word :: rest =>
    let (text, line) :=
      if width < line.length + word.length && indent.length < line.length then
        (text ++ line.trimAsciiEnd.toString ++ "\n", indent)
      else (text, line)
    wrapWords width indent text (line ++ word ++ (if rest.isEmpty then "" else ", ")) rest

/-- The words of an array along its axes, in brackets; rows of further axes stand on lines of their own. -/
def rows (width : Nat) (indent : String) : List Axis → List String → String
  | [], words => words.headD ""
  | [last], words =>
    let text := wrapWords (width - 1) indent "" indent (markGap last words)
    "[" ++ String.ofList (text.toList.drop indent.length) ++ "]"
  | first :: rest, words =>
    let size := rest.foldl (fun n a => n * a.shown) 1
    let parts := (List.range first.shown).map fun i =>
      rows (width - 1) (indent ++ " ") rest ((words.drop (i * size)).take size)
    let newlines := String.ofList (List.replicate rest.length '\n')
    "[" ++ (("," ++ newlines ++ indent).intercalate (markGap first parts)) ++ "]"

/-- Width of a line. -/
def lineWidth : Nat := 75

/-- A shape between parentheses. -/
def shape (dims : List Nat) : String :=
  match dims with
  | [n] => "(" ++ toString n ++ ",)"
  | _ => "(" ++ ", ".intercalate (dims.map toString) ++ ")"

/-- An array in full, with its shape and the type of its elements where what is shown does not imply them. -/
def full (dims : List Nat) (type : ElementType) (items : List (Value Float)) : String :=
  let summary := mostShown < items.length
  let body :=
    if items.isEmpty then "[]"
    else
      rows (lineWidth - 1) "       " (dims.map (axis summary))
        (elements type dims.isEmpty (pick summary dims items))
  let extras :=
    (if summary || (items.isEmpty && dims != [0]) then ["shape=" ++ shape dims] else [])
      ++ (if type.isImplied && !items.isEmpty then [] else ["dtype=" ++ type.name])
  if extras.isEmpty then "array(" ++ body ++ ")"
  else
    let text := "array(" ++ body ++ ","
    let extra := ", ".intercalate extras ++ ")"
    let lastLine := ((text.splitOn "\n").getLastD "").length
    text ++ (if lineWidth < lastLine + extra.length + 1 then "\n      " else " ") ++ extra

end ArrayText

end Linkage
