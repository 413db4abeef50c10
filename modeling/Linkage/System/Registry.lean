import Linkage.Constraint.Creation

/-!
# Linkage.System.Registry — registering nodes and constraints

A system takes each node once, in the order of first registration, and each constraint with all of its nodes.  A
constraint of another system is refused, and so is a second constraint under an identifier in use; a refusal comes
before the first change.
-/

namespace Linkage

variable {α : Type} [Scalar α]

/-- What may be given for a new node besides its position. -/
structure NodeOptions (α : Type) where
  base : Option Bool := none
  mass : Option (Option α) := none
  name : Option (Option String) := none

namespace NodeOptions

/-- The options that were given, by name. -/
def named (o : NodeOptions α) : List (String × Value α) :=
  (o.base.map fun b => ("base", .flag b)).toList
    ++ (o.mass.map fun m => ("mass", (m.map Value.float).getD .nothing)).toList
    ++ (o.name.map fun n => ("name", .optionalText n)).toList

/-- The node at a position with these options. -/
def node (o : NodeOptions α) (x y : α) : Node α :=
  Node.create x y (o.base.getD false) (o.mass.getD (some 1)) (o.name.getD none)

end NodeOptions

namespace Assembly

/-- Lists a node in a system, unless it is listed. -/
def enlist (a : Assembly α) (s : SystemId) (n : NodeId) : Assembly α :=
  let sys := a.system s
  if n ∈ sys.nodes then a else a.setSystem s { sys with nodes := sys.nodes ++ [n] }

/-- Why a system refuses a constraint, if it does. -/
def refusal? (a : Assembly α) (s : SystemId) (c : ConstraintId) : Option (Fault α) :=
  let k := a.constraint c
  if k.owner.isSome ∧ k.owner ≠ some s then some (.foreignOwner k.id)
  else
    match k.id with
    | none => none
    | some id =>
      match a.byId? s id with
      | some other => if other = c then none else some (.duplicateId id)
      | none => none

/-- Enters the identifier of a constraint in the index of a system. -/
def indexId (a : Assembly α) (s : SystemId) (c : ConstraintId) : Assembly α :=
  match (a.constraint c).id with
  | none => a
  | some id =>
    let sys := a.system s
    if (sys.index.lookup id).isSome then a else a.setSystem s { sys with index := sys.index ++ [(id, c)] }

/-- Makes a system the owner of a constraint and appends the constraint to its list. -/
def append (a : Assembly α) (s : SystemId) (c : ConstraintId) : Assembly α :=
  let a := a.setConstraint c { a.constraint c with owner := some s }
  let sys := a.system s
  a.setSystem s { sys with constraints := sys.constraints ++ [c] }

end Assembly

namespace Act

/-- Makes a node that no system has registered. -/
def newNode (x y : α) (o : NodeOptions α) : Act α NodeId := do
  let n := (← assembly).nodes.size
  change fun a => { a with nodes := a.nodes.push (o.node x y) }
  return n

/-- Changes a node. -/
def modifyNode (n : NodeId) (f : Node α → Node α) : Act α Unit := change fun a => a.setNode n (f (a.node n))

def shownNode (a : Assembly α) (n : NodeId) : Option (Value α) := some (.node (a.node n))

def shownConstraint (a : Assembly α) (c : ConstraintId) : Option (Value α) := some (.constraint (a.sketch c))

/-- Registers a node. -/
def addNode (s : SystemId) (n : NodeId) : Act α NodeId :=
  traced .system "System.add_node" (fun a => { args := [.system, .node (a.node n)] }) shownNode do
    change (·.enlist s n)
    return n

/-- Makes and registers a node. -/
def node (s : SystemId) (x y : α) (o : NodeOptions α) : Act α NodeId :=
  traced .system "System.node" (fun _ => { args := [.system, .float x, .float y], named := o.named }) shownNode do
    addNode s (← newNode x y o)

/-- Registers a constraint with all of its nodes. -/
def add (s : SystemId) (c : ConstraintId) : Act α ConstraintId :=
  traced .system "System.add" (fun a => { args := [.system, .constraint (a.sketch c)] }) shownConstraint do
    let a ← assembly
    match a.refusal? s c with
    | some fault => throw fault
    | none =>
      change (·.indexId s c)
      (a.constraint c).shape.nodes.forM fun n => discard (addNode s n)
      change (·.append s c)
      let a ← assembly
      report .system .debug (.registered (a.sketch c) (a.system s).constraints.length)
      return c

/-- Makes and registers a pair. -/
def pair (s : SystemId) (first second : NodeId) (o : PairOptions α) : Act α ConstraintId :=
  traced .system "System.pair"
    (fun a => { args := [.system, .node (a.node first), .node (a.node second)], named := o.named })
    shownConstraint do
    add s (← newPair first second o)

/-- Makes and registers a triple. -/
def triple (s : SystemId) (apex ray arm : NodeId) (o : TripleOptions α) : Act α ConstraintId :=
  traced .system "System.triple"
    (fun a => { args := [.system, .node (a.node apex), .node (a.node ray), .node (a.node arm)], named := o.named })
    shownConstraint do
    add s (← newTriple apex ray arm o)

end Act

end Linkage
