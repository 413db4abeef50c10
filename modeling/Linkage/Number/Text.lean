import Linkage.Number.Decimal

/-!
# Linkage.Number.Text — how numbers are written

Four written forms of a double: the shortest text that reads back, a fixed number of places, a fixed number of
significant digits in the shorter of two notations, and scientific notation.  Values that are no number are `nan`,
`inf` and `-inf` in each of them.
-/

namespace Linkage.Number

/-- Digits around the point; a number with no fraction is written without a point. -/
def Decimal.positional (d : Decimal) : String :=
  if d.exponent < 0 then
    "0." ++ String.ofList (List.replicate (-d.exponent - 1).toNat '0' ++ d.digits)
  else
    let whole := d.exponent.toNat + 1
    let padded := d.digits ++ List.replicate (whole - d.digits.length) '0'
    let fraction := padded.drop whole
    String.ofList (padded.take whole) ++ (if fraction.isEmpty then "" else "." ++ String.ofList fraction)

/-- One digit before the point and an exponent with a sign and at least two digits. -/
def Decimal.scientific (d : Decimal) : String :=
  let fraction := d.digits.drop 1
  let size := toString d.exponent.natAbs
  String.ofList (d.digits.take 1) ++ (if fraction.isEmpty then "" else "." ++ String.ofList fraction)
    ++ (if d.exponent < 0 then "e-" else "e+") ++ (if size.length < 2 then "0" ++ size else size)

/-- The text of a double whose finite magnitudes are written by `body`. -/
def written (body : Binary → String) (x : Float) : String :=
  match read x with
  | .undefined => "nan"
  | .infinite negative => if negative then "-inf" else "inf"
  | .finite b => if b.negative then "-" ++ body b else body b

/-- The shortest text that reads back as the same double: positional from `1e-4` up to `1e16` and then always with a
point, scientific outside. -/
def shortest : Float → String :=
  written fun b =>
    let d := b.shortest
    if -4 ≤ d.exponent ∧ d.exponent < 16 then
      let text := d.positional
      if text.contains '.' then text else text ++ ".0"
    else d.scientific

/-- A fixed number of places after the point. -/
def fixed (places : Nat) : Float → String :=
  written fun b =>
    let digits := Nat.toDigits 10 (b.toPlaces places)
    let padded := List.replicate (places + 1 - digits.length) '0' ++ digits
    let whole := padded.length - places
    String.ofList (padded.take whole) ++ (if places = 0 then "" else "." ++ String.ofList (padded.drop whole))

/-- A fixed number of significant digits without zeros at the end, scientific below `1e-4` and from the power of ten
that the digits no longer reach. -/
def general (count : Nat) : Float → String :=
  written fun b =>
    let d := (b.toPrecision count).trim
    if -4 ≤ d.exponent ∧ d.exponent < count then d.positional else d.scientific

/-- Scientific notation with a fixed number of places. -/
def scientific (places : Nat) : Float → String :=
  written fun b => (b.toPrecision (places + 1)).scientific

end Linkage.Number
