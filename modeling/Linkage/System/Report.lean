import Linkage.System.Ranking
import Linkage.System.Relaxation
import Linkage.Text.Layout

/-!
# Linkage.System.Report — what a system reports of itself

The ranked residuals of a system, the report of a run, and the description of every constraint as a record.
-/

namespace Linkage

namespace Act

variable {α : Type} [Scalar α]

/-- The residuals of every constraint of a list, in order. -/
def residualsOfAll : List ConstraintId → Act α (List (Residual α))
  | [] => return []
  | c :: rest => do
    let here ← residualsOf c
    return here ++ (← residualsOfAll rest)

/-- The residuals of a system, the largest first. -/
def residuals (s : SystemId) : Act α (List (Residual α)) :=
  traced .system "System.residuals" (fun _ => { args := [.system] })
    (fun _ rs => some (.list (rs.map .residual))) do
    let a ← assembly
    return rank (← residualsOfAll (a.system s).constraints)

/-- How many residuals a report shows unless told otherwise. -/
def shownResiduals : Int := 5

/-- Relaxes a system and reports the outcome with the residuals it leaves; `limit` cuts the list of the worst ones. -/
def solve (s : SystemId) (limit : Option Int := none) : Act α (Report α) :=
  traced .system "System.solve" (fun _ => { args := .system :: (limit.map Value.int).toList })
    (fun _ r => some (.report r)) do
    let iterations ← correct s
    let ranked ← residuals s
    let a ← assembly
    return {
      iterations := iterations
      converged := 0 < iterations
      freedom := a.freedom s
      maxResidual := match ranked with
        | r :: _ => r.size
        | [] => 0
      worst := Text.firstOf (limit.getD shownResiduals) ranked }

/-- Relaxes a system and announces the run and its outcome. -/
def solveAnnounced (s : SystemId) : Act α (Report α) := do
  let a ← assembly
  let sys := a.system s
  report .solver .info (.solving sys.nodes.length sys.constraints.length (a.freedom s))
  let r ← solve s
  report .solver .info (.solved r)
  return r

/-- Records the description of every constraint of a system at a level. -/
def log (s : SystemId) (level : Option Level := none) : Act α Unit :=
  traced .system "System.log" (fun _ => { args := .system :: (level.map Value.int).toList })
    (fun _ _ => some .nothing) do
    (((← assembly).system s).constraints).forM fun c => do
      report .system (level.getD .info) (.description (← describe c))

end Act

end Linkage
