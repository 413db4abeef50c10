import Linkage.Session

/-!
# Linkage.Target.Evaluation — reading a target

A target is read for the constraint that owns it.  A reference looks its constraint up in the owner's system when it is
first followed and is remembered for that system from then on; a look-up that fails leaves nothing behind.
-/

namespace Linkage.Act

variable {α : Type} [Scalar α]

/-- What a traced look-up shows of its result. -/
def constraintOrNone (a : Assembly α) : Option ConstraintId → Value α
  | some c => .constraint (a.sketch c)
  | none => .nothing

/-- The constraint that a system has registered under an identifier; there is none without one. -/
def byId? (s : SystemId) (id : Option String) : Act α (Option ConstraintId) :=
  traced .system "System.by_id" (fun _ => { args := [.system, .optionalText id] })
    (fun a found => some (constraintOrNone a found)) do
      let a ← assembly
      return id.bind (a.byId? s)

/-- Another constraint of the system that a constraint is registered with. -/
def resolve (c : ConstraintId) (ref : String) : Act α ConstraintId := do
  let k := (← assembly).constraint c
  match k.owner with
  | none => throw (.unregistered k.id ref)
  | some s =>
    match ← byId? s (some ref) with
    | some found => return found
    | none => throw (.unknownReference k.id ref)

/-- The constraint that a reference stands for when a constraint follows it. -/
def follow (r : Reference) (c : ConstraintId) : Act α ConstraintId := do
  let a ← assembly
  let k := a.constraint c
  match k.owner.bind fun s => a.remembered? r.key s with
  | some found => return found
  | none =>
    let found ← resolve c r.ref
    let shape := ((← assembly).constraint found).shape
    if shape.has r.quantity then
      match k.owner with
      | some s => change fun a => { a with found := ⟨r.key, s, found⟩ :: a.found }
      | none => pure ()
      report .combinators .debug (.resolved r.ref k.id)
      return found
    else throw (.unreadable k.id r.ref r.quantity shape.kind)

def ownLength (c : ConstraintId) : Act α α := do ofExcept ((← assembly).length c)

def ownAngle (c : ConstraintId) : Act α α := return (← assembly).angle c

def lengthAt (r : Reference) (c : ConstraintId) : Act α α := do ownLength (← follow r c)

def angleAt (r : Reference) (c : ConstraintId) : Act α α := do ownAngle (← follow r c)

/-- The value of a formula for the constraint that owns it. -/
def formula (c : ConstraintId) : Formula α → Act α α
  | .ownLengthMin least => return Scalar.max (← ownLength c) least
  | .ownLengthMax most => return Scalar.min (← ownLength c) most
  | .ownLengthRange least most => return Scalar.clamp (← ownLength c) least most
  | .lengthOf r factor => return (← lengthAt r c) * factor
  | .ownAngleMin least => return Scalar.max (← ownAngle c) least
  | .ownAngleMax most => return Scalar.min (← ownAngle c) most
  | .ownAngleRange least most => return Scalar.clamp (← ownAngle c) least most
  | .angleOf r offset => return Scalar.wrap ((← angleAt r c) + offset)
  | .around r least most => do
    let w ← angleAt r c
    return Scalar.clamp (Scalar.wrap ((← ownAngle c) - w)) least most + w
  | .obtuse r => do
    let w ← angleAt r c
    let gap := Scalar.wrap ((← ownAngle c) - w)
    if 0 ≤ gap then return Scalar.clamp gap Scalar.quarterTurn Scalar.pi + w
    else return Scalar.clamp gap (-Scalar.pi) (-Scalar.quarterTurn) + w
  | .between r₁ r₂ scale => do
    let w₁ ← angleAt r₁ c
    let w₂ ← angleAt r₂ c
    return w₁ + scale * Scalar.wrap (w₂ - w₁)
  | .callable read => do
    let a ← assembly
    change fun a => { a with readings := a.readings + 1 }
    ofExcept (read ⟨a.node, (a.constraint c).shape, a.readings⟩)

/-- The value of a target for the constraint that owns it. -/
def evaluate (c : ConstraintId) : Target α → Act α α
  | .fixed x => return x
  | .computed k => formula c k.formula

/-- The wanted length of a constraint, if it has one. -/
def targetLength (c : ConstraintId) : Act α (Option α) := do
  match ((← assembly).constraint c).lengthTarget with
  | some t => return some (← evaluate c t)
  | none => return none

/-- The wanted angle of a constraint, if it has one. -/
def targetAngle (c : ConstraintId) : Act α (Option α) := do
  match ((← assembly).constraint c).angleTarget with
  | some t => return some (← evaluate c t)
  | none => return none

end Linkage.Act
