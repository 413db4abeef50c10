import Linkage.Mechanism
import Linkage.System.Relaxation

/-!
# Linkage.Mechanism.Sweep — turning the crank

A sweep turns the crank step by step through a number of revolutions and relaxes the mechanism after each step.  A step
that does not converge leaves the joints where they were, and the sweep goes on; a failure ends it.
-/

namespace Linkage.Mechanism

/-- One step of a sweep: the driven angle, the sweeps the relaxation took, and where the joints are then. -/
structure Step (α : Type) where
  step : Int
  phi : α
  iterations : Nat
  coords : List (String × Vec α)

/-- The steps of a sweep, and what ended it early if something did. -/
structure Steps (α : Type) where
  items : List (Step α)
  failure : Option (Fault α)

variable {α : Type} [Scalar α]

/-- The driven angle of a step. -/
def stepAngle (steps : Int) (turns : α) (step : Int) : Except (Fault α) α := do
  Scalar.divide (Scalar.turn * turns * (← Scalar.ofInt step)) (← Scalar.ofInt steps)

/-- Drives the crank to the angle of a step and relaxes. -/
def turnTo (m : Mechanism) (steps : Int) (turns : α) (step : Int) : Act α (Step α) := do
  let phi ← Act.ofExcept (stepAngle steps turns step)
  Act.setAngleTarget m.driver (.number (.float phi))
  let iterations ← Act.correct m.system
  if iterations = 0 then Act.report .mechanisms .warning (.stepFailed m.name step phi)
  return ⟨step, phi, iterations, m.coords (← Act.assembly)⟩

/-- The last `left` of the steps, of which `done` are done. -/
def stepsFrom (m : Mechanism) (steps : Int) (turns : α) : (left done : Nat) → Session α → Steps α × Session α
  | 0, _, s => (⟨[], none⟩, s)
  | left + 1, done, s =>
    match m.turnTo steps turns (done + 1) s with
    | .error fault s => (⟨[], some fault⟩, s)
    | .ok item s =>
      let (rest, s) := m.stepsFrom steps turns left (done + 1) s
      (⟨item :: rest.items, rest.failure⟩, s)

/-- Turns the crank in equal steps; there has to be at least one. -/
def sweep (m : Mechanism) (steps : Int) (turns : α) (s : Session α) : Steps α × Session α :=
  if steps < 1 then (⟨[], some .noSteps⟩, s) else m.stepsFrom steps turns steps.toNat 0 s

end Linkage.Mechanism
