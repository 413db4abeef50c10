import Linkage.System.Registry
import Linkage.System.Settings
import Linkage.Target.Factory

/-!
# Linkage.Mechanism — planar mechanisms driven by a crank

Two ready-made mechanisms.  Both start solved: the bars have the lengths they were drawn with, and the crank points
along the x-axis, which is where its driver wants it.
-/

namespace Linkage

/-- A system with a constraint that drives it and named joints. -/
structure Mechanism where
  name : String
  system : SystemId
  driver : ConstraintId
  joints : List (String × NodeId)

namespace Mechanism

variable {α : Type} [Scalar α]

/-- The positions of the joints. -/
def coords (m : Mechanism) (a : Assembly α) : List (String × Vec α) :=
  m.joints.map fun (name, n) => let v := a.node n; (name, ⟨v.x, v.y⟩)

/-! ### Four-bar linkage -/

/-- The lengths of a four-bar linkage. -/
structure FourBar (α : Type) where
  ground : α
  crank : α
  coupler : α
  rocker : α

namespace FourBar

/-- The distance between the ends that coupler and rocker have to bridge at the start. -/
def span (l : FourBar α) : α := l.ground - l.crank

/-- Whether coupler and rocker can meet at the start. -/
def closes (l : FourBar α) : Bool :=
  Scalar.abs (l.coupler - l.rocker) ≤ l.span && l.span ≤ l.coupler + l.rocker

/-- The joint of coupler and rocker, as seen from the end of the crank: the upper of the two points at the lengths of
coupler and rocker from the ends of the span. -/
def joint (l : FourBar α) : Except (Fault α) (Vec α) := do
  let d := l.span
  let along ← Scalar.divide (d * d + l.coupler * l.coupler - l.rocker * l.rocker) (Scalar.two * d)
  let above := Scalar.sqrt (Scalar.max (l.coupler * l.coupler - along * along) 0)
  return ⟨along, above⟩

end FourBar

/-- A crank-rocker linkage with the crank along the x-axis. -/
def fourBar (l : FourBar α) : Act α Mechanism := do
  if !l.closes then throw .openChain
  let joint ← Act.ofExcept l.joint
  let s ← Act.newSystem none
  let a₀ ← Act.node s 0 0 { base := some true, name := some (some "A0") }
  let b₀ ← Act.node s l.ground 0 { base := some true, name := some (some "B0") }
  let a ← Act.node s l.crank 0 { name := some (some "A") }
  let b ← Act.node s (l.crank + joint.x) joint.y { name := some (some "B") }
  let driver ← Act.pair s a₀ a { id := "crank", length := some (.marker "const"), angle := some (.number (.float 0)) }
  discard <| Act.pair s a b { id := "coupler", length := some (.marker "const") }
  let upper ← Act.anglePosFrom "ground"
  discard <| Act.pair s b₀ b
    { id := "rocker", length := some (.marker "const"), angle := some (.target (.computed upper)) }
  discard <| Act.pair s a₀ b₀ { id := "ground" }
  Act.report .mechanisms .info (.builtFourBar ((← Act.assembly).freedom s))
  return ⟨"four-bar", s, driver, [("A0", a₀), ("B0", b₀), ("A", a), ("B", b)]⟩

/-! ### Slider-crank -/

/-- The lengths of a slider-crank. -/
structure SliderCrank (α : Type) where
  crank : α
  coupler : α

/-- A crank and a coupler that drive a slider along the positive x-axis. -/
def sliderCrank (l : SliderCrank α) : Act α Mechanism := do
  if l.coupler ≤ l.crank then throw .shortCoupler
  let s ← Act.newSystem none
  let a₀ ← Act.node s 0 0 { base := some true, name := some (some "A0") }
  let a ← Act.node s l.crank 0 { name := some (some "A") }
  let b ← Act.node s (l.crank + l.coupler) 0 { name := some (some "B") }
  let driver ← Act.pair s a₀ a { id := "crank", length := some (.marker "const"), angle := some (.number (.float 0)) }
  discard <| Act.pair s a b { id := "coupler", length := some (.marker "const") }
  discard <| Act.pair s a₀ b
    { id := "slider", angle := some (.number (.float 0)), direction := some (.int 1) }
  Act.report .mechanisms .info (.builtSliderCrank ((← Act.assembly).freedom s))
  return ⟨"slider-crank", s, driver, [("A0", a₀), ("A", a), ("B", b)]⟩

end Mechanism

end Linkage
