import Linkage.Journal
import Linkage.Number.Text
import Linkage.Numeral.Conversion
import Linkage.Scalar.Double
import Linkage.Target.Label.Text
import Linkage.Text.Layout
import Linkage.Text.Quoted
import Linkage.Value.Array
import Linkage.Value.Writing

/-!
# Linkage.Value.Text — how values are written

A value is written in full, briefly or compactly.  The brief form cuts long texts in the middle and long or deep
collections at their limits.  The compact form, which traces use, shows nodes, constraints and arrays by what identifies
them, shows the first elements of lists and tuples, and cuts every other text at its end.  Both are texts of values that
can be written; `written` is the compact form of any value, or the failure to write it.
-/

namespace Linkage

open Number (shortest general)
open Text (elide enclosed firstOf quoted quotedOrNone truth)

namespace Kind

def text : Kind → String
  | .pair => "PairConstraint"
  | .triple => "TripleConstraint"

end Kind

namespace Quantity

def text : Quantity → String
  | .length => "length"
  | .angle => "angle"

end Quantity

/-! ### Full form -/

namespace Node

/-- A node with all of its parts but the boost. -/
def full (n : Node Float) : String :=
  Text.object "Node" [("x", shortest n.x), ("y", shortest n.y), ("base", truth n.base), ("mass", shortest n.mass),
    ("name", quotedOrNone n.name)]

/-- A node by its name, or else by its place to three digits. -/
def short (n : Node Float) : String :=
  match n.name with
  | some name => if name.isEmpty then place else name
  | none => place
where
  place := "(" ++ general 3 n.x ++ "," ++ general 3 n.y ++ ")"

/-- A node by its name and its place to six digits. -/
def compact (n : Node Float) : String :=
  let label := match n.name with
    | some name => if name.isEmpty then "node" else name
    | none => "node"
  "<" ++ label ++ " (" ++ general 6 n.x ++ ", " ++ general 6 n.y ++ ")" ++ (if n.base then " base" else "") ++ ">"

end Node

namespace Sketch

/-- A constraint with its identifier and its nodes. -/
def full (c : Sketch Float) : String :=
  Text.object c.kind.text [("id", quotedOrNone c.id), ("nodes", ",".intercalate (c.nodes.map Node.short))]

/-- A constraint by its identifier. -/
def compact (c : Sketch Float) : String := "<" ++ c.kind.text ++ " " ++ quotedOrNone c.id ++ ">"

end Sketch

/-- A number as it was given. -/
def Numeral.text : Numeral Float → String
  | .flag b => truth b
  | .int n => toString n
  | .float x => shortest x

def Config.full (c : Config Float) : String :=
  Text.object "SolverConfig"
    [("itrmax", c.sweeps.text), ("lentol", shortest c.tolerance), ("lenmax", shortest c.reach)]

def Residual.full (r : Residual Float) : String :=
  Text.object "ConstraintResidual"
    [("constraint_id", quotedOrNone r.id), ("kind", quoted r.quantity.text), ("error", shortest r.error)]

def Report.full (r : Report Float) : String :=
  Text.object "SolveReport"
    [("iterations", toString r.iterations), ("converged", truth r.converged), ("dof", toString r.freedom),
      ("max_residual", shortest r.maxResidual), ("worst", enclosed "[" "]" (r.worst.map Residual.full))]

namespace Value

/-- A quoted text.  When its quoted beginning is longer than the limit only the two ends are quoted, and the middle of
that is left out. -/
def briefText (limit : Nat) (s : String) : String :=
  let cs := s.toList
  if limit < (quoted (String.ofList (cs.take limit))).length then
    let (front, back) := Text.gapped limit cs
    Text.withGap limit (quoted (String.ofList (front ++ back)))
  else quoted s

/-- Elements of a collection, at most `limit` of them. -/
def briefItems (limit : Nat) {β : Type} (write : β → String) (xs : List β) : List String :=
  (xs.take limit).map write ++ (if limit < xs.length then ["..."] else [])

/-- The brief form of values that are no collections, if they can be written at all (`briefRefusal?`). -/
def briefAtom : Value Float → String
  | .nothing => "None"
  | .flag b => truth b
  | .int n => elide limits.integer (toString n)
  | .count n => elide limits.integer (toString n)
  | .float x => shortest x
  | .text s => briefText limits.text s
  | .node n => elide limits.other n.full
  | .constraint c => elide limits.other c.full
  | .system => "<nodelink.solver.system.System object at 0x>"
  | .config c => if c.sweeps.isTooLong then "<SolverConfig instance at 0x>" else elide limits.other c.full
  | .fixed x => Text.object "Fixed" [("value", shortest x)]
  | .current => "CURRENT"
  | .combinator name => elide limits.other name.shown
  | .label name => briefText limits.text name.text
  | .function name => elide limits.other ("<function " ++ name ++ " at 0x>")
  | .residual r => elide limits.other r.full
  | .report r => elide limits.other r.full
  | .array type shape items => elide limits.other (ArrayText.full shape type items)
  | .list _ | .tuple _ | .set _ | .dict _ => ""

/-- The brief form down to a depth. -/
def brief : (depth : Nat) → Value Float → String
  | 0, .list items => if items.isEmpty then "[]" else "[...]"
  | 0, .tuple items => if items.isEmpty then "()" else "(...)"
  | 0, .set items => if items.isEmpty then "set()" else "\x7b...\x7d"
  | 0, .dict entries => if entries.isEmpty then "\x7b\x7d" else "\x7b...\x7d"
  | depth + 1, .list items => enclosed "[" "]" (briefItems limits.items (brief depth) items)
  | depth + 1, .tuple items =>
    enclosed "(" (if items.length = 1 then ",)" else ")") (briefItems limits.items (brief depth) items)
  | depth + 1, .set items =>
    if items.isEmpty then "set()"
    else enclosed "\x7b" "\x7d" (briefItems limits.setItems (brief depth) (sorted id items))
  | depth + 1, .dict entries =>
    enclosed "\x7b" "\x7d"
      (briefItems limits.items (fun e => brief depth e.1 ++ ": " ++ brief depth e.2) (sorted Prod.fst entries))
  | _, v => briefAtom v

/-! ### Compact form -/

/-- The extreme of some numbers: what is no number wins over all others. -/
def extreme (better : Float → Float → Bool) (xs : List Float) : Float :=
  match xs with
  | [] => 0.0 / 0.0
  | x :: rest => rest.foldl (fun m y => if m.isNaN then m else if y.isNaN || better y m then y else m) x

/-- An array by its shape and element type, with the elements if they are few and else with the extremes. -/
def compactArray (maxItems : Int) (type : ElementType) (shape : List Nat) (items : List (Value Float)) : String :=
  let size : Int := items.length
  let values := items.map given
  let parts :=
    if 0 < size ∧ size ≤ maxItems then ["values=" ++ brief limits.depth (nest shape items)]
    else if size = 0 then []
    else
      ["min=" ++ general 6 (extreme (fun y m => decide (y < m)) values),
        "max=" ++ general 6 (extreme (fun y m => decide (m < y)) values)]
  ", ".intercalate (("ndarray(shape=" ++ ArrayText.shape shape ++ ", dtype=" ++ type.name ++ ")") :: parts)

/-- The first of some elements and how many there are. -/
def compactItems (limit : Int) (texts : List String) : List String :=
  firstOf limit texts ++ (if limit < texts.length then ["... (" ++ toString texts.length ++ " items)"] else [])

mutual

/-- The compact form: lists and tuples by their first elements, other values cut to a length. -/
def compact (maxItems maxLength : Int) : Value Float → String
  | .array type shape items => compactArray maxItems type shape items
  | .node n => n.compact
  | .constraint c => c.compact
  | .list items => enclosed "[" "]" (compactItems maxItems (compactAll items))
  | .tuple items => enclosed "(" ")" (compactItems maxItems (compactAll items))
  | v => Text.truncate maxLength (brief limits.depth v)

/-- The compact forms of the elements of a collection, at the limits that hold inside one. -/
def compactAll : List (Value Float) → List String
  | [] => []
  | v :: rest => compact shownItems shownLength v :: compactAll rest

end

/-- The compact form of a value, as traces show it. -/
def shown : Value Float → String := compact shownItems shownLength

/-- The compact form of a value, or why it cannot be written where there is room for so many layers of lists inside it. -/
def written (room : Nat) (maxItems maxLength : Int) (v : Value Float) : Except (Fault Float) String :=
  match v.refusal? maxItems room with
  | some fault => .error fault
  | none => .ok (compact maxItems maxLength v)

end Value

/-- The arguments of a call, as traces show them. -/
def Call.text (c : Call Float) : String :=
  let args := if c.args.isEmpty then [] else [enclosed "args=[" "]" (c.args.map Value.shown)]
  let named :=
    if c.named.isEmpty then [] else [enclosed "kwargs=\x7b" "\x7d" (c.named.map fun n => n.1 ++ "=" ++ n.2.shown)]
  if (args ++ named).isEmpty then "no-args" else ", ".intercalate (args ++ named)

/-- The arguments of a call, or why they cannot be written. -/
def Call.written (room : Nat) (c : Call Float) : Except (Fault Float) String :=
  match c.refusal? room with
  | some fault => .error fault
  | none => .ok c.text

end Linkage
