import Linkage.Plane

/-!
# Linkage.Node — point masses

A node is a point with a mass.  A base node never moves and counts as infinitely heavy.  The boost of a node grows by
one with every correction applied to it within a sweep, which makes it heavier for the corrections that follow.
-/

namespace Linkage

/-- A point mass of the plane. -/
structure Node (α : Type) where
  x : α
  y : α
  base : Bool
  mass : α
  name : Option String
  boost : α

namespace Node

variable {α : Type} [Scalar α]

/-- A new node; a mass of zero or none stands for one. -/
def create (x y : α) (base : Bool) (mass : Option α) (name : Option String) : Node α where
  x := x
  y := y
  base := base
  mass := match mass with
    | some m => if Scalar.isZero m then 1 else m
    | none => 1
  name := name
  boost := 0

instance : Inhabited (Node α) := ⟨create 0 0 false none none⟩

def moveTo (n : Node α) (x y : α) : Node α := { n with x := x, y := y }

/-- The mass that a correction has to move. -/
def effectiveMass (n : Node α) : α := n.mass + n.boost

/-- Counts a correction. -/
def addBoost (n : Node α) : Node α := if n.base then n else { n with boost := n.boost + 1 }

/-- Forgets the corrections counted so far. -/
def clearBoost (n : Node α) : Node α := if n.base then n else { n with boost := 0 }

def isFinite (n : Node α) : Bool := Scalar.isFinite n.x && Scalar.isFinite n.y

/-- The vector from one node to another. -/
def vectorTo (a b : Node α) : Vec α := ⟨b.x - a.x, b.y - a.y⟩

end Node

end Linkage
