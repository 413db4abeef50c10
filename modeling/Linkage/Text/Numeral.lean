import Linkage.Number.Binary
import Linkage.Text.Digit

/-!
# Linkage.Text.Numeral — reading numbers from text

An integer is an optional sign and decimal digits of any script; a real number may also have a point, an exponent, or
be one of the words for infinity and for no number.  White space may stand around both, and a single underscore
between two digits.
-/

namespace Linkage.Text

/-- Digits of every script as ASCII digits, every blank as a plain one, and all else outside ASCII as a character
that no numeral holds. -/
def plain (c : Char) : Char :=
  if isBlank c then ' '
  else if c.toNat < 128 then c
  else match digitValue? c with
    | some d => Char.ofNat (48 + d)
    | none => '?'

/-- Without the blanks at both ends. -/
def strip (cs : List Char) : List Char :=
  ((cs.dropWhile (· == ' ')).reverse.dropWhile (· == ' ')).reverse

/-- Drops each underscore that stands between two digits; `none` when one stands elsewhere. -/
def dropUnderscores : Bool → List Char → Option (List Char)
  | _, [] => some []
  | afterDigit, '_' :: next :: rest =>
    if afterDigit && next.isDigit then (dropUnderscores true rest).map (next :: ·) else none
  | _, ['_'] => none
  | _, c :: rest => (dropUnderscores c.isDigit rest).map (c :: ·)

/-- The numeral in a text: plain characters without blanks around them and without underscores. -/
def numeral? (s : String) : Option (List Char) :=
  dropUnderscores false (strip (s.toList.map plain))

/-- Splits off a sign; the answer says whether it is a minus. -/
def splitSign : List Char → Bool × List Char
  | '-' :: rest => (true, rest)
  | '+' :: rest => (false, rest)
  | cs => (false, cs)

/-- The number that a run of ASCII digits writes. -/
def digitsValue (cs : List Char) : Nat :=
  cs.foldl (fun n c => 10 * n + (c.toNat - 48)) 0

/-- The most digits of an integer that is read or written. -/
def maxIntegerDigits : Nat := 4300

/-- Whether an integer has more digits than are written. -/
def isTooLong (n : Int) : Bool :=
  -- an integer of one word is not compared with so large a power
  decide (Nat.pow 2 64 ≤ n.natAbs) && decide (Nat.pow 10 maxIntegerDigits ≤ n.natAbs)

/-- Reads an integer. -/
def integer? (s : String) : Option Int := do
  let (negative, digits) := splitSign (← numeral? s)
  if digits.isEmpty || !digits.all Char.isDigit || maxIntegerDigits < digits.length then none
  else
    let size : Int := digitsValue digits
    some (if negative then -size else size)

/-- Reads the exponent at the end of a real number; no exponent is an exponent of zero. -/
def exponent? : List Char → Option Int
  | [] => some 0
  | c :: rest =>
    if c = 'e' || c = 'E' then
      let (negative, digits) := splitSign rest
      if digits.isEmpty || !digits.all Char.isDigit then none
      else
        let size : Int := digitsValue digits
        some (if negative then -size else size)
    else none

/-- Reads a real number without sign. -/
def magnitude? (cs : List Char) : Option Float :=
  let word := String.ofList (cs.map Char.toLower)
  if word = "inf" || word = "infinity" then some (1.0 / 0.0)
  else if word = "nan" then some (0.0 / 0.0)
  else
    let whole := cs.takeWhile Char.isDigit
    let rest := cs.dropWhile Char.isDigit
    let (fraction, rest) := match rest with
      | '.' :: tail => (tail.takeWhile Char.isDigit, tail.dropWhile Char.isDigit)
      | _ => ([], rest)
    if whole.isEmpty && fraction.isEmpty then none
    else (exponent? rest).map fun e =>
      Number.ofDecimal (digitsValue (whole ++ fraction)) (e - fraction.length)

/-- Reads a real number as the nearest double. -/
def real? (s : String) : Option Float := do
  let (negative, rest) := splitSign (← numeral? s)
  let size ← magnitude? rest
  some (if negative then -size else size)

end Linkage.Text
