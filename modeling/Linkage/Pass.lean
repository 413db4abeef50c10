import Linkage.Constraint.Shape

/-!
# Linkage.Pass — corrections of nodes

The three corrections that a relaxation is made of.  The angle pass moves the ends of a pair onto its target line and
then within reach of each other, the length pass moves them to the wanted distance, and the ray pass moves the arm of a
triple towards the wanted ray.  Ends move in proportion to their inverse masses, so a base node does not move.
-/

namespace Linkage

variable {α : Type} [Scalar α]

/-- A correction of a few nodes, which may fail and keeps the nodes as it leaves them. -/
abbrev Pass (α σ β : Type) := EStateM (Fault α) σ β

def Pass.ofExcept {σ β : Type} : Except (Fault α) β → Pass α σ β
  | .ok b => pure b
  | .error e => throw e

/-- The inverse of the effective mass; a base node has an infinite one. -/
def Node.inverseMass (n : Node α) : Except (Fault α) α :=
  if n.base then .ok 0 else Scalar.divide 1 n.effectiveMass

/-- The parts of a correction that two nodes take, in proportion to their inverse masses.  Two base nodes take none. -/
def shares (inverseMass1 inverseMass2 : α) : Except (Fault α) (α × α) :=
  let sum := inverseMass1 + inverseMass2
  if Scalar.isZero sum then .ok (inverseMass1, inverseMass2)
  else return (← Scalar.divide inverseMass1 sum, ← Scalar.divide inverseMass2 sum)

/-- The direction of a vector; one too short to have a direction gets that of the x-axis. -/
def Vec.direction (v : Vec α) : Except (Fault α) (Vec α) :=
  let r := v.length
  if Scalar.epsilon < r then return ⟨← Scalar.divide v.x r, ← Scalar.divide v.y r⟩ else .ok ⟨1, 0⟩

/-! ### Pairs -/

/-- The two nodes of a pair. -/
structure Ends (α : Type) where
  first : Node α
  second : Node α

namespace Ends

def vector (e : Ends α) : Vec α := e.first.vectorTo e.second

def shares (e : Ends α) : Except (Fault α) (α × α) := do
  Linkage.shares (← e.first.inverseMass) (← e.second.inverseMass)

/-- Moves the first node along a vector and the second against it, each by its share. -/
def shift (e : Ends α) (share : α × α) (d : Vec α) : Ends α where
  first := e.first.moveTo (e.first.x + share.1 * d.x) (e.first.y + share.1 * d.y)
  second := e.second.moveTo (e.second.x - share.2 * d.x) (e.second.y - share.2 * d.y)

def addBoost (e : Ends α) : Ends α := ⟨e.first.addBoost, e.second.addBoost⟩

end Ends

/-- The sign of the direction that a pair has to keep. -/
def Direction.sign : Direction → α
  | .against => -1
  | .either => 0
  | .along => 1

/-- What to take from the vector `v` of a pair so that it lies on the line of `heading`: its part across the line, and
twice its part along where that points to the forbidden side. -/
def Direction.correction (direction : Direction) (v heading : Vec α) : Vec α :=
  let across := -v.x * heading.y + v.y * heading.x
  let along := v.x * heading.x + v.y * heading.y
  if direction = .either ∨ 0 < direction.sign * along then ⟨-across * heading.y, across * heading.x⟩
  else
    ⟨Scalar.two * along * heading.x - across * heading.y, Scalar.two * along * heading.y + across * heading.x⟩

/-- Pulls the ends of a pair together until they are within reach, and says whether that moved them by the tolerance
or more. -/
def reachPass (cfg : Config α) (share : α × α) : Pass α (Ends α) Bool := do
  let v := (← get).vector
  let r := v.length
  if cfg.reach < r then
    let excess := cfg.reach - r
    let dx ← Pass.ofExcept (Scalar.divide (-excess * v.x) r)
    let dy ← Pass.ofExcept (Scalar.divide (-excess * v.y) r)
    modify (·.shift share ⟨dx, dy⟩)
    return cfg.tolerance ≤ Scalar.abs excess
  else return false

/-- Moves the ends of a pair onto the line with the angle `target`.  The answer is whether they were there within the
tolerance. -/
def anglePass (cfg : Config α) (direction : Direction) (target : α) : Pass α (Ends α) Bool := do
  let heading ← Pass.ofExcept (Scalar.heading target)
  let e ← get
  let share ← Pass.ofExcept e.shares
  let d := direction.correction e.vector heading
  modify (·.shift share d)
  let pulled ← reachPass cfg share
  modify Ends.addBoost
  return !pulled && Scalar.abs d.x < cfg.tolerance && Scalar.abs d.y < cfg.tolerance

/-- Moves the ends of a pair to the distance `target`.  The answer is whether they were there within the tolerance, and
then nothing moves. -/
def lengthPass (cfg : Config α) (target : α) : Pass α (Ends α) Bool := do
  let e ← get
  let gap := target - e.vector.length
  if Scalar.abs gap < cfg.tolerance then return true
  let u ← Pass.ofExcept e.vector.direction
  let share ← Pass.ofExcept e.shares
  modify (·.shift share ⟨-gap * u.x, -gap * u.y⟩)
  modify Ends.addBoost
  return false

/-! ### Triples -/

/-- The three nodes of a triple. -/
structure Corner (α : Type) where
  apex : Node α
  ray : Node α
  arm : Node α

namespace Corner

def rayVector (k : Corner α) : Vec α := k.apex.vectorTo k.ray

def armVector (k : Corner α) : Vec α := k.apex.vectorTo k.arm

/-- Whether the first ray is too short to measure an angle against. -/
def isFlat (k : Corner α) : Bool := k.rayVector.length ≤ Scalar.rootEpsilon

/-- The part of a correction that the arm takes. -/
def armShare (k : Corner α) : Except (Fault α) α := do
  let apex ← k.apex.inverseMass
  let arm ← k.arm.inverseMass
  if Scalar.isZero (apex + arm) then return arm else Scalar.divide arm (apex + arm)

end Corner

/-- Moves the arm of a triple by its share towards the ray at the angle `target` against the first ray.  The answer is
whether it was there within the tolerance. -/
def rayPass (cfg : Config α) (target : α) : Pass α (Corner α) Bool := do
  let k ← get
  let u := k.rayVector
  let v := k.armVector
  let r := u.length
  let c ← Pass.ofExcept (Scalar.divide u.x r)
  let s ← Pass.ofExcept (Scalar.divide u.y r)
  let turn ← Pass.ofExcept (Scalar.heading target)
  let heading : Vec α := ⟨c * turn.x - s * turn.y, s * turn.x + c * turn.y⟩
  let across := -v.x * heading.y + v.y * heading.x
  let d : Vec α := ⟨-across * heading.y, across * heading.x⟩
  let share ← Pass.ofExcept k.armShare
  set { k with arm := (k.arm.moveTo (k.arm.x - share * d.x) (k.arm.y - share * d.y)).addBoost }
  return Scalar.abs d.x < cfg.tolerance && Scalar.abs d.y < cfg.tolerance

end Linkage
