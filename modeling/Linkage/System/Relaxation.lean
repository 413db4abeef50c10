import Linkage.Constraint.Correction

/-!
# Linkage.System.Relaxation — relaxing a system

A sweep prepares every constraint and then corrects each one once, in order, so that each sees what the earlier ones
moved.  A run sweeps until every constraint answers that it was met; a run that does not get there, because of the cap
on sweeps, a position that is not finite or a failure, puts every node back.
-/

namespace Linkage

/-- How the sweeps of a run ended, with their number. -/
inductive Verdict where
  | met (sweeps : Nat)
  | unmet (sweeps : Nat)

namespace Assembly

variable {α : Type} [Scalar α]

/-- Prepares every constraint of a list for a sweep. -/
def prepareAll (first : Bool) (constraints : List ConstraintId) (a : Assembly α) : Assembly α :=
  constraints.foldl (prepare first) a

/-- Puts back the nodes of every constraint of a list. -/
def restoreAll (constraints : List ConstraintId) (a : Assembly α) : Assembly α := constraints.foldl restore a

end Assembly

namespace Act

variable {α : Type} [Scalar α]

/-- Corrects every constraint of a list, whatever the earlier ones answer. -/
def correctAll : List ConstraintId → Act α Bool
  | [] => return true
  | c :: rest => do
    let met ← correctOne c
    let restMet ← correctAll rest
    return met && restMet

/-- One sweep. -/
def sweep (first : Bool) (constraints : List ConstraintId) : Act α Bool := do
  change (·.prepareAll first constraints)
  correctAll constraints

/-- At most `left` more sweeps of a system after `done` ones. -/
def sweepsFrom (s : SystemId) (constraints : List ConstraintId) : (left done : Nat) → Act α Verdict
  | 0, done => return .unmet done
  | left + 1, done => do
    let met ← sweep (done == 0) constraints
    if !(← assembly).isFinite s then
      report .system .warning (.notFinite (done + 1))
      return .unmet (done + 1)
    else if met then return .met (done + 1)
    else sweepsFrom s constraints left (done + 1)

/-- Puts back the nodes of every constraint of a system. -/
def rollback (s : SystemId) : Act α Unit :=
  traced .system "System._rollback" (fun _ => { args := [.system] }) (fun _ _ => some .nothing) do
    let a ← assembly
    change (·.restoreAll (a.system s).constraints)

/-- Relaxes a system: the number of sweeps that met every constraint, or zero after every node was put back. -/
def correct (s : SystemId) : Act α Nat :=
  traced .system "System.correct" (fun _ => { args := [.system] }) (fun _ n => some (.count n)) do
    let a ← assembly
    let constraints := (a.system s).constraints
    let cap := (a.config (a.system s).config).cap
    match ← outcome (sweepsFrom s constraints cap 0) with
    | .error fault =>
      rollback s
      throw fault
    | .ok (.unmet done) =>
      rollback s
      report .system .info (.restored done constraints.length)
      return 0
    | .ok (.met done) =>
      report .system .debug (.converged done)
      return done

end Act

end Linkage
