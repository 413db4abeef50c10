import Linkage.Text.Printable

/-!
# Linkage.Text.Quoted — text between quotes

Quoted text stands between single quotes, or between double quotes when it holds a single quote and no double one.
The quote in use, the backslash and everything unprintable are escaped, so the result is one printable line.
-/

namespace Linkage.Text

/-- Exactly `width` hexadecimal digits of a code point that fits. -/
def hexDigits (width n : Nat) : String :=
  let digits := Nat.toDigits 16 n
  String.ofList (List.replicate (width - digits.length) '0' ++ digits)

/-- The written form of one character between the quotes `quote`. -/
def escape (quote c : Char) : String :=
  if c = quote then String.ofList ['\\', c]
  else if c = '\\' then "\\\\"
  else if c = '\n' then "\\n"
  else if c = '\r' then "\\r"
  else if c = '\t' then "\\t"
  else if isPrintable c then c.toString
  else if c.toNat < 0x100 then "\\x" ++ hexDigits 2 c.toNat
  else if c.toNat < 0x10000 then "\\u" ++ hexDigits 4 c.toNat
  else "\\U" ++ hexDigits 8 c.toNat

/-- The quote for a text: the double one only where it saves an escape. -/
def quoteFor (s : String) : Char :=
  if s.contains '\'' && !s.contains '"' then '"' else '\''

/-- A text between quotes. -/
def quoted (s : String) : String :=
  let quote := quoteFor s
  quote.toString ++ s.foldl (fun out c => out ++ escape quote c) "" ++ quote.toString

/-- A text between quotes, or the word for an absent one. -/
def quotedOrNone : Option String → String
  | some s => quoted s
  | none => "None"

end Linkage.Text
