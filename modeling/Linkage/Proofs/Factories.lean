import Linkage.Proofs.Consultation
import Linkage.Proofs.Operation
import Mathlib.Data.List.Nodup

/-!
# Linkage.Proofs.Factories — the references of computed targets are all different

A factory changes nothing but the next unused key.  The references of the target that it makes have the keys from there
on, one each, and ask for the quantity that the target reads (`runs_make`).  So no two references ever made share a key.
-/

namespace Linkage

variable {α : Type}

/-- The references of the formula ask for the quantity that it reads through them. -/
def Formula.Fitting : Formula α → Prop
  | .lengthOf r _ => r.quantity = .length
  | .angleOf r _ | .around r _ _ | .obtuse r => r.quantity = .angle
  | .between r₁ r₂ _ => r₁.quantity = .angle ∧ r₂.quantity = .angle
  | _ => True

/-- The computed target has the next keys for its references, and they are used up. -/
structure Combinator.New (a : Assembly α) (k : Combinator α) (b : Assembly α) : Prop where
  keys : k.formula.references.map Reference.key = List.range' a.nextKey k.formula.references.length
  after : b = { a with nextKey := a.nextKey + k.formula.references.length }
  fitting : k.formula.Fitting

namespace Combinator.New

variable {a b : Assembly α} {k : Combinator α}

theorem key_mem (h : k.New a b) {r : Reference} (hr : r ∈ k.formula.references) :
    a.nextKey ≤ r.key ∧ r.key < a.nextKey + k.formula.references.length := by
  have hmem : r.key ∈ k.formula.references.map Reference.key := List.mem_map_of_mem hr
  rw [h.keys, List.mem_range'_1] at hmem
  exact hmem

theorem apart (h : k.New a b) : Act.Apart k.formula.references := by
  have hnodup : (k.formula.references.map Reference.key).Nodup := by
    rw [h.keys]
    exact List.nodup_range'
  intro r hr r' hr' heq
  exact List.inj_on_of_nodup_map hnodup hr' hr heq

end Combinator.New

namespace Act

/-- `p` makes a computed target with new references, and does nothing else. -/
def MakesNew (p : Act α (Combinator α)) : Prop := ∀ a, Runs p a fun r b => ∃ k, r = .ok k ∧ k.New a b

theorem MakesNew.making [Scalar α] {operation : String} {args : List (Value α)} {p : Act α (Combinator α)}
    (h : MakesNew p) (hargs : ∀ room, ({ args := args } : Call α).refusal? room = none := by exact fun _ => rfl) :
    MakesNew (making operation args p) := fun a => runs_traced (h a) (writable_making hargs)

/-- Making a reference first: the rest runs with the next key, and the one after it is the next then. -/
theorem runs_after_newReference {β : Type} {a : Assembly α} {ref : String} {quantity : Quantity}
    {f : Reference → Act α β} {Q : Except (Fault α) β → Assembly α → Prop}
    (h : Runs (f ⟨a.nextKey, ref, quantity⟩) { a with nextKey := a.nextKey + 1 } Q) :
    Runs (newReference ref quantity >>= f) a Q := runs_bind (runs_read (runs_after_change (runs_pure h)))

/-- A target without references needs no keys. -/
theorem makesNew_pure {k : Combinator α} (hk : k.formula.references = []) (hfitting : k.formula.Fitting) :
    MakesNew (pure k : Act α (Combinator α)) :=
  fun a => runs_pure ⟨k, rfl, by simp [hk], by simp [hk], hfitting⟩

/-- A target with one reference takes the next key for it. -/
theorem makesNew_one {ref : String} {quantity : Quantity} {k : Reference → Combinator α}
    (hk : ∀ r, (k r).formula.references = [r]) (hfitting : ∀ r, r.quantity = quantity → (k r).formula.Fitting) :
    MakesNew (do
      let r ← newReference ref quantity
      return k r) :=
  fun a => runs_after_newReference (runs_pure ⟨_, rfl, by simp [hk], by simp [hk], hfitting _ rfl⟩)

variable [Scalar α]

theorem makesNew_around (ref : String) (least most : α) (name : Label α) :
    MakesNew (angleAround ref least most name) := (makesNew_one (fun _ => rfl) (by simp [Formula.Fitting])).making

theorem makesNew_angleRangeFrom (ref : String) (least most : α) : MakesNew (angleRangeFrom ref least most) :=
  (makesNew_around ref least most _).making

theorem makesNew_angleFrom (ref : String) (offset : Option α) : MakesNew (angleFrom ref offset) :=
  MakesNew.making (makesNew_one (fun _ => rfl) (by simp [Formula.Fitting])) (Call.refusal?_withNumber [ref] offset)

/-- Every factory makes a computed target with new references, and does nothing else. -/
theorem runs_make (recipe : Recipe α) : MakesNew recipe.make := by
  cases recipe with
  | lengthMin least => exact (makesNew_pure rfl (by simp [Formula.Fitting])).making
  | lengthMax most => exact (makesNew_pure rfl (by simp [Formula.Fitting])).making
  | lengthRange least most => exact (makesNew_pure rfl (by simp [Formula.Fitting])).making
  | lengthFrom ref scale =>
    exact .making (makesNew_one (fun _ => rfl) (by simp [Formula.Fitting])) (Call.refusal?_withScale ref scale)
  | angleMin least => exact (makesNew_pure rfl (by simp [Formula.Fitting])).making
  | angleMax most => exact (makesNew_pure rfl (by simp [Formula.Fitting])).making
  | angleRange least most => exact (makesNew_pure rfl (by simp [Formula.Fitting])).making
  | angleFrom ref offset => exact makesNew_angleFrom ref offset
  | anglePosFrom ref => exact (makesNew_around ref 0 Scalar.pi _).making
  | angleNegFrom ref => exact (makesNew_around ref (-Scalar.pi) 0 _).making
  | angleAcuteFrom ref => exact (makesNew_around ref (-Scalar.quarterTurn) Scalar.quarterTurn _).making
  | angleObtuseFrom ref => exact MakesNew.making (makesNew_one (fun _ => rfl) (by simp [Formula.Fitting]))
  | angleRangeFrom ref least most => exact makesNew_angleRangeFrom ref least most
  -- the only factory with two references, which are made one after the other and thus differ
  | angleDelta first second scale =>
    refine .making (fun a => ?_) (Call.refusal?_withNumber [first, second] scale)
    refine runs_after_newReference (runs_after_newReference (runs_pure ⟨_, rfl, ?_, rfl, ?_⟩))
    · simp [Formula.references, List.range']
    · exact ⟨rfl, rfl⟩
  | angleInclude ref offset =>
    intro a
    refine runs_bind (runs_notice ?_)
    rw [then_ok]
    exact makesNew_angleFrom ref (some offset) a
  | angleInclRange ref least most =>
    intro a
    refine runs_bind (runs_notice ?_)
    rw [then_ok]
    exact makesNew_angleRangeFrom ref least most a

end Act

end Linkage
