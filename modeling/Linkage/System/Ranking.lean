import Linkage.Sorting
import Linkage.Value

/-!
# Linkage.System.Ranking — residuals by size

Residuals are ranked by the size of their errors, the largest first, and keep their order where sizes are equal.  An
error that is no number compares with nothing; where there is one the ranking is what merging runs makes of such
comparisons.
-/

namespace Linkage

variable {α : Type} [Scalar α]

/-- The size of a residual's error. -/
def Residual.size (r : Residual α) : α := Scalar.abs r.error

/-- Whether a residual is smaller than another. -/
def Residual.isSmaller (r₁ r₂ : Residual α) : Bool := decide (r₁.size < r₂.size)

/-- Residuals by falling size. -/
def rank (residuals : List (Residual α)) : List (Residual α) :=
  if residuals.all fun r => Scalar.same r.size r.size then
    residuals.mergeSort fun r₁ r₂ => !r₁.isSmaller r₂
  else
    match Sorting.sort (fun r₁ r₂ => some (r₁.isSmaller r₂)) residuals.reverse with
    | some rising => rising.reverse
    | none => residuals

end Linkage
