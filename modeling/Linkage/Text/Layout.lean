/-!
# Linkage.Text.Layout — putting texts together
-/

namespace Linkage.Text

/-- The words for the two truth values. -/
def truth (b : Bool) : String := if b then "True" else "False"

/-- Texts between two ends, with commas. -/
def enclosed (left right : String) (items : List String) : String := left ++ ", ".intercalate items ++ right

/-- An object by its type and its named parts. -/
def object (type : String) (parts : List (String × String)) : String :=
  enclosed (type ++ "(") ")" (parts.map fun part => part.1 ++ "=" ++ part.2)

/-- A short name with arguments. -/
def applied (name : String) (args : List String) : String := name ++ "(" ++ ",".intercalate args ++ ")"

/-- The first `limit` elements; a negative limit counts from the end. -/
def firstOf {β : Type} (limit : Int) (xs : List β) : List β :=
  if limit < 0 then xs.take (xs.length - (-limit).toNat) else xs.take limit.toNat

/-- The elements from a position on; a negative position counts from the end. -/
def restFrom {β : Type} (position : Int) (xs : List β) : List β :=
  if position < 0 then xs.drop (xs.length - (-position).toNat) else xs.drop position.toNat

/-- How many elements stay before and behind a gap when `limit` characters may be shown. -/
def gapEnds (limit : Nat) : Nat × Nat :=
  let before := (limit - 3) / 2
  (before, limit - 3 - before)

/-- The elements before and behind a gap.  In a list that is shorter than the end behind the gap the position of that
end is negative, and so counts from the end itself. -/
def gapped {β : Type} (limit : Nat) (xs : List β) : List β × List β :=
  let (before, after) := gapEnds limit
  (xs.take before, restFrom ((xs.length : Int) - after) xs)

/-- A text with its middle left out. -/
def withGap (limit : Nat) (s : String) : String :=
  let (front, back) := gapped limit s.toList
  String.ofList front ++ "..." ++ String.ofList back

/-- A text, with its middle left out when it is longer than the limit. -/
def elide (limit : Nat) (s : String) : String := if limit < s.length then withGap limit s else s

/-- A text, cut at its end when it is longer than the limit. -/
def truncate (limit : Int) (s : String) : String :=
  if limit < s.length then String.ofList (firstOf limit s.toList) ++ "... (truncated)" else s

/-- Blanks in front of a text that is narrower than its column. -/
def padLeft (width : Nat) (s : String) : String :=
  String.ofList (List.replicate (width - s.length) ' ') ++ s

end Linkage.Text
