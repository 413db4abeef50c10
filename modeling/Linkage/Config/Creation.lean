import Linkage.Numeral.Conversion

/-!
# Linkage.Config.Creation — making a configuration

Three numbers make a configuration only if they are valid; a configuration made so has an integer for its cap.
-/

namespace Linkage.Config

variable {α : Type} [Scalar α]

/-- A configuration from the numbers given.  All three are checked, in this order, before any is converted. -/
def create (sweeps tolerance reach : Numeral α) : Except (Fault α) (Config α) := do
  let count ← sweeps.toInt
  if count < 1 then throw (.showing .tooFewSweeps sweeps.value)
  if !tolerance.isPositive then throw (.showing .badTolerance tolerance.value)
  if !reach.isPositive then throw (.showing .badReach reach.value)
  return ⟨.int count, ← tolerance.toScalar, ← reach.toScalar⟩

end Linkage.Config
