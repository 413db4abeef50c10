import Linkage.Config
import Linkage.Scalar.Double

/-!
# Linkage.Config.Standard — the tuning constants a session starts with
-/

namespace Linkage

/-- The configuration in force until another one is set. -/
def Config.standard : Config Float := ⟨.int 256, 0.1, 1000000.0⟩

theorem Config.standard_valid : Config.standard.Valid := by decide

end Linkage
