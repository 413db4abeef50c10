import Linkage.Numeral

/-!
# Linkage.Config — tuning constants of the relaxation

A configuration caps the number of sweeps of one run, sets the tolerance of every convergence test, and bounds the
distance between the two nodes of a pair.  The cap is kept as it was given.
-/

namespace Linkage

/-- Tuning constants of the relaxation. -/
structure Config (α : Type) where
  /-- The cap on the sweeps of one run. -/
  sweeps : Numeral α
  /-- Tolerance of the convergence tests. -/
  tolerance : α
  /-- Largest distance between the nodes of a pair. -/
  reach : α

namespace Config

variable {α : Type} [Scalar α]

/-- Largest number of sweeps of one run. -/
def cap (c : Config α) : Nat := c.sweeps.countBelow.toNat

/-- What a configuration keeps that was checked when it was made: at least one sweep, and positive bounds. -/
def Valid (c : Config α) : Prop := 1 ≤ c.cap ∧ 0 < c.tolerance ∧ 0 < c.reach

instance (c : Config α) : Decidable c.Valid := inferInstanceAs (Decidable (_ ∧ _ ∧ _))

end Config

end Linkage
