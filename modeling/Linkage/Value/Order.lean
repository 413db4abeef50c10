import Linkage.Sorting
import Linkage.Value

/-!
# Linkage.Value.Order — which values compare

Numbers compare with numbers by their exact values, texts with texts by code points, and tuples with tuples element by
element.  Nothing else compares, and a collection is put in order only if no comparison that its sorting asks for is
refused.  What is no number is neither less than any number nor equal to one.
-/

namespace Linkage

variable {α : Type} [Scalar α]

/-- The order of two scalars, if both are numbers. -/
def Scalar.order? (x y : α) : Option Ordering :=
  if x < y then some .lt else if y < x then some .gt else if Scalar.same x y then some .eq else none

/-- The order of a scalar and an integer, if the scalar is a number: by the whole parts, and where these are equal by the
fraction of the scalar. -/
def Scalar.orderInt? (x : α) (n : Int) : Option Ordering :=
  match Scalar.truncate? x with
  | none => if Scalar.isInfinite x then some (if x < 0 then .lt else .gt) else none
  | some whole =>
    if whole = n then (Scalar.ofInt? whole : Option α).bind (Scalar.order? x) else some (compare whole n)

namespace Numeral

/-- The order of two numbers as they are given, if both are numbers. -/
def order? : Numeral α → Numeral α → Option Ordering
  | .float x, .float y => Scalar.order? x y
  | .float x, .int n => Scalar.orderInt? x n
  | .float x, .flag b => Scalar.orderInt? x b.toNat
  | .int n, .float y => (Scalar.orderInt? y n).map Ordering.swap
  | .flag b, .float y => (Scalar.orderInt? y b.toNat).map Ordering.swap
  | .int n, .int m => some (compare n m)
  | .int n, .flag b => some (compare n b.toNat)
  | .flag b, .int n => some (compare (b.toNat : Int) n)
  | .flag b, .flag c => some (compare b.toNat c.toNat)

/-- Whether two numbers are equal. -/
def sameAs (a b : Numeral α) : Bool := a.order? b == some .eq

end Numeral

namespace Value

/-- The number that a value is, if it is one. -/
def number? : Value α → Option (Numeral α)
  | .flag b => some (.flag b)
  | .int n => some (.int n)
  | .count n => some (.int n)
  | .float x => some (.float x)
  | _ => none

mutual

/-- Whether two values are equal.  Snapshots of objects that have an identity never are. -/
def equal : Value α → Value α → Bool
  | .nothing, .nothing | .current, .current => true
  | .text s, .text t => s == t
  | .fixed x, .fixed y => Scalar.same x y
  | .config c, .config d => Scalar.same c.tolerance d.tolerance && Scalar.same c.reach d.reach && c.sweeps.sameAs d.sweeps
  | .list xs, .list ys | .tuple xs, .tuple ys => equalAll xs ys
  | .dict es, .dict fs => es.length == fs.length && hasEntries fs es
  | v, w =>
    match v.number?, w.number? with
    | some a, some b => a.sameAs b
    | _, _ => false

/-- Whether the elements of two lists or tuples are equal. -/
def equalAll : List (Value α) → List (Value α) → Bool
  | [], [] => true
  | x :: xs, y :: ys => equal x y && equalAll xs ys
  | _, _ => false

/-- Whether a dictionary has all of these entries. -/
def hasEntries (fs : List (Value α × Value α)) : List (Value α × Value α) → Bool
  | [] => true
  | (key, v) :: rest => (fs.any fun f => equal key f.1 && equal v f.2) && hasEntries fs rest

end

mutual

/-- Whether a value is less than another, if the two compare. -/
def less? : Value α → Value α → Option Bool
  | .text s, .text t => some (s < t)
  | .tuple xs, .tuple ys => lessAll? xs ys
  | v, w =>
    match v.number?, w.number? with
    | some a, some b => some (a.order? b == some .lt)
    | _, _ => none

/-- Whether a tuple is less than another: by the first elements that differ, or else by the lengths. -/
def lessAll? : List (Value α) → List (Value α) → Option Bool
  | [], ys => some !ys.isEmpty
  | _ :: _, [] => some false
  | x :: xs, y :: ys => if equal x y then lessAll? xs ys else less? x y

end

/-- The elements in increasing order of their keys, or as they are if a comparison is refused. -/
def sorted {β : Type} (key : β → Value α) (xs : List β) : List β :=
  (Sorting.sort (fun x y => less? (key x) (key y)) xs).getD xs

/-- A set of these elements: each once, the first of equal ones. -/
def setOf (items : List (Value α)) : Value α :=
  .set (items.foldl (fun kept v => if kept.any (equal v) then kept else kept ++ [v]) [])

/-- A dictionary of these entries: each key once, with the value given last. -/
def dictOf (entries : List (Value α × Value α)) : Value α :=
  .dict (entries.foldl
    (fun kept e =>
      if kept.any fun k => equal k.1 e.1 then kept.map fun k => if equal k.1 e.1 then (k.1, e.2) else k
      else kept ++ [e])
    [])

end Value

end Linkage
