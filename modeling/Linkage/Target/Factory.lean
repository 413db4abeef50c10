import Linkage.Session

/-!
# Linkage.Target.Factory — built-in computed targets

Each factory makes a computed target with fresh references and is traced under its own name.  Four of them keep the
owner's angle in an interval around that of another constraint and differ in the interval and in their label.
-/

namespace Linkage.Act

variable {α : Type} [Scalar α]

/-- A reference that nothing else shares. -/
def newReference (ref : String) (quantity : Quantity) : Act α Reference := do
  let key := (← assembly).nextKey
  change fun a => { a with nextKey := key + 1 }
  return ⟨key, ref, quantity⟩

/-- Traces a factory. -/
def making (operation : String) (args : List (Value α)) (make : Act α (Combinator α)) : Act α (Combinator α) :=
  traced .combinators operation (fun _ => { args := args }) (fun _ c => some (.combinator c.name)) make

/-! ### Lengths -/

/-- The owner's length, but at least a bound. -/
def lengthMin (least : α) : Act α (Combinator α) :=
  making "len_min" [.float least] do return ⟨.lengthMin least, .ownLengthMin least⟩

/-- The owner's length, but at most a bound. -/
def lengthMax (most : α) : Act α (Combinator α) :=
  making "len_max" [.float most] do return ⟨.lengthMax most, .ownLengthMax most⟩

/-- The owner's length, moved into an interval. -/
def lengthRange (least most : α) : Act α (Combinator α) :=
  making "len_range" [.float least, .float most] do
    return ⟨.lengthRange least most, .ownLengthRange least most⟩

/-- How a message shows a scale that may be missing. -/
def scaleValue : Option α → Value α
  | some x => .float x
  | none => .nothing

/-- The length of another constraint times a factor, one unless a scale is given. -/
def lengthFrom (ref : String) (scale : Option (Option α)) : Act α (Combinator α) :=
  making "len_from" (.text ref :: (scale.map scaleValue).toList) do
    let factor := (scale.getD none).getD 1
    let r ← newReference ref .length
    return ⟨.lengthFrom ref factor, .lengthOf r factor⟩

/-! ### Angles -/

/-- The owner's angle, but at least a bound. -/
def angleMin (least : α) : Act α (Combinator α) :=
  making "ang_min" [.float least] do return ⟨.angleMin least, .ownAngleMin least⟩

/-- The owner's angle, but at most a bound. -/
def angleMax (most : α) : Act α (Combinator α) :=
  making "ang_max" [.float most] do return ⟨.angleMax most, .ownAngleMax most⟩

/-- The owner's angle, moved into an interval. -/
def angleRange (least most : α) : Act α (Combinator α) :=
  making "ang_range" [.float least, .float most] do
    return ⟨.angleRange least most, .ownAngleRange least most⟩

/-- The angle of another constraint plus an offset. -/
def angleFrom (ref : String) (offset : Option α) : Act α (Combinator α) :=
  making "ang_from" (.text ref :: (offset.map Value.float).toList) do
    let shift := offset.getD 0
    let r ← newReference ref .angle
    return ⟨.angleFrom ref shift, .angleOf r shift⟩

/-- The owner's angle, kept in an interval around that of another constraint. -/
def angleAround (ref : String) (least most : α) (name : Label α) : Act α (Combinator α) :=
  making "_delta_clamp" [.text ref, .float least, .float most, .label name] do
    let r ← newReference ref .angle
    return ⟨name, .around r least most⟩

/-- At most half a turn ahead of another constraint. -/
def anglePosFrom (ref : String) : Act α (Combinator α) :=
  making "ang_pos_from" [.text ref] do angleAround ref 0 Scalar.pi (.posFrom ref)

/-- At most half a turn behind another constraint. -/
def angleNegFrom (ref : String) : Act α (Combinator α) :=
  making "ang_neg_from" [.text ref] do angleAround ref (-Scalar.pi) 0 (.negFrom ref)

/-- At most a quarter turn from another constraint, on either side. -/
def angleAcuteFrom (ref : String) : Act α (Combinator α) :=
  making "ang_acute_from" [.text ref] do
    angleAround ref (-Scalar.quarterTurn) Scalar.quarterTurn (.acuteFrom ref)

/-- At least a quarter turn from another constraint, on either side. -/
def angleObtuseFrom (ref : String) : Act α (Combinator α) :=
  making "ang_obtuse_from" [.text ref] do
    let r ← newReference ref .angle
    return ⟨.obtuseFrom ref, .obtuse r⟩

/-- In an interval around the angle of another constraint. -/
def angleRangeFrom (ref : String) (least most : α) : Act α (Combinator α) :=
  making "ang_range_from" [.text ref, .float least, .float most] do
    angleAround ref least most (.rangeFrom ref least most)

/-- Between the angles of two constraints, at a fraction of the way. -/
def angleDelta (first second : String) (scale : Option α) : Act α (Combinator α) :=
  making "ang_delta" (.text first :: .text second :: (scale.map Value.float).toList) do
    let fraction := scale.getD 1
    let r₁ ← newReference first .angle
    let r₂ ← newReference second .angle
    return ⟨.delta first second fraction, .between r₁ r₂ fraction⟩

/-! ### Deprecated names -/

/-- Deprecated name of `angleFrom`. -/
def angleInclude (ref : String) (offset : α) : Act α (Combinator α) := do
  notice .include
  angleFrom ref (some offset)

/-- Deprecated name of `angleRangeFrom`. -/
def angleInclRange (ref : String) (least most : α) : Act α (Combinator α) := do
  notice .inclRange
  angleRangeFrom ref least most

end Linkage.Act
