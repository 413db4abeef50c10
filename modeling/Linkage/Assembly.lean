import Linkage.Table
import Linkage.Target

/-!
# Linkage.Assembly — nodes, constraints, systems and configurations

An assembly holds every object of a session in numbered tables, so that a node can be shared by constraints, a
constraint's target by other constraints, and a configuration by systems.  A system lists its nodes and constraints in
the order of registration and indexes the constraints by identifier.
-/

namespace Linkage

/-- The number of a constraint in its assembly. -/
abbrev ConstraintId := Nat

/-- The number of a system in its assembly. -/
abbrev SystemId := Nat

/-- The number of a configuration in its assembly. -/
abbrev ConfigId := Nat

/-- Where a node was and how boosted, before a run moved it. -/
structure Saved (α : Type) where
  node : NodeId
  x : α
  y : α
  boost : α

/-- A constraint: its nodes, its owner once it is registered, the node states that a failed run goes back to, and its
targets. -/
structure Constraint (α : Type) where
  id : Option String
  shape : Shape
  owner : Option SystemId
  saved : List (Saved α)
  lengthTarget : Option (Target α)
  angleTarget : Option (Target α)

instance {α : Type} : Inhabited (Constraint α) := ⟨⟨none, .pair 0 0 .either, none, [], none, none⟩⟩

/-- An ordered set of nodes and the ordered constraints on them. -/
structure System where
  config : ConfigId
  nodes : List NodeId
  constraints : List ConstraintId
  /-- Constraints by identifier. -/
  index : List (String × ConstraintId)

instance : Inhabited System := ⟨⟨0, [], [], []⟩⟩

/-- What a reference found, for the system of the constraint that followed it. -/
structure Found where
  key : Nat
  system : SystemId
  constraint : ConstraintId

/-- Every object of a session. -/
structure Assembly (α : Type) where
  nodes : Table (Node α)
  constraints : Table (Constraint α)
  systems : Table System
  configs : Table (Config α)
  /-- The configuration of constraints without a system, and of new systems that are given none. -/
  ambient : Config α
  found : List Found
  /-- The next unused key of a reference. -/
  nextKey : Nat
  /-- How often a callable target has been read. -/
  readings : Nat

namespace Assembly

variable {α : Type} [Scalar α]

instance : Inhabited (Config α) := ⟨⟨.int 0, 0, 0⟩⟩

def empty (ambient : Config α) : Assembly α := ⟨.empty, .empty, .empty, .empty, ambient, [], 0, 0⟩

def node (a : Assembly α) (n : NodeId) : Node α := a.nodes.get n

def constraint (a : Assembly α) (c : ConstraintId) : Constraint α := a.constraints.get c

def system (a : Assembly α) (s : SystemId) : System := a.systems.get s

def config (a : Assembly α) (k : ConfigId) : Config α := a.configs.get k

def setNode (a : Assembly α) (n : NodeId) (v : Node α) : Assembly α := { a with nodes := a.nodes.set n v }

def setConstraint (a : Assembly α) (c : ConstraintId) (v : Constraint α) : Assembly α :=
  { a with constraints := a.constraints.set c v }

def setSystem (a : Assembly α) (s : SystemId) (v : System) : Assembly α := { a with systems := a.systems.set s v }

def setConfig (a : Assembly α) (k : ConfigId) (v : Config α) : Assembly α := { a with configs := a.configs.set k v }

/-! ### Reading constraints -/

def length (a : Assembly α) (c : ConstraintId) : Except (Fault α) α := (a.constraint c).shape.length a.node

def angle (a : Assembly α) (c : ConstraintId) : α := (a.constraint c).shape.angle a.node

/-- The configuration in force for a constraint: that of its system, or the ambient one. -/
def configOf (a : Assembly α) (c : ConstraintId) : Config α :=
  match (a.constraint c).owner with
  | some s => a.config (a.system s).config
  | none => a.ambient

/-- The constraint that a system has registered under an identifier. -/
def byId? (a : Assembly α) (s : SystemId) (id : String) : Option ConstraintId :=
  (a.system s).index.lookup id

/-- What a reference found before, for a system. -/
def remembered? (a : Assembly α) (key : Nat) (s : SystemId) : Option ConstraintId :=
  (a.found.find? fun f => f.key == key && f.system == s).map Found.constraint

/-- What messages show of a constraint. -/
def sketch (a : Assembly α) (c : ConstraintId) : Sketch α :=
  let k := a.constraint c
  ⟨k.shape.kind, k.id, k.shape.nodes.map a.node⟩

/-- Degrees of freedom: two for each node that is no base, less one for each target. -/
def freedom (a : Assembly α) (s : SystemId) : Int :=
  let free := (a.system s).nodes.countP fun n => !(a.node n).base
  let targets := (a.system s).constraints.foldl (fun total c =>
    let k := a.constraint c
    total + k.lengthTarget.isSome.toNat + k.angleTarget.isSome.toNat) 0
  2 * (free : Int) - targets

/-! ### Saving and restoring nodes -/

/-- Prepares a constraint for a sweep: the first one saves the state of its nodes, and each clears their boosts. -/
def prepare (first : Bool) (a : Assembly α) (c : ConstraintId) : Assembly α :=
  let k := a.constraint c
  let saved := k.shape.nodes.map fun n => let v := a.node n; (⟨n, v.x, v.y, v.boost⟩ : Saved α)
  let a := if first then a.setConstraint c { k with saved := saved } else a
  k.shape.nodes.foldl (fun a n => a.setNode n (a.node n).clearBoost) a

/-- Puts the nodes of a constraint back to their saved states, one after the other. -/
def restore (a : Assembly α) (c : ConstraintId) : Assembly α :=
  (a.constraint c).saved.foldl
    (fun a s => a.setNode s.node { a.node s.node with x := s.x, y := s.y, boost := s.boost }) a

/-- Whether every node of a system has a finite position. -/
def isFinite (a : Assembly α) (s : SystemId) : Bool := (a.system s).nodes.all fun n => (a.node n).isFinite

end Assembly

end Linkage
