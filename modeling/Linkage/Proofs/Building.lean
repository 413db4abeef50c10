import Linkage.Proofs.Completing
import Linkage.Proofs.FourBars
import Linkage.Proofs.Sliders

/-!
# Linkage.Proofs.Building — drafts that are ready to be driven

Whether a mechanism is ready to be driven can be read off the nodes and constraints that it was drafted with
(`Draft.ready`), whatever configuration its system has been given since.  On doubles, a four-bar linkage and a
slider-crank are drafted with such nodes and constraints (`drafts_fourBar`, `drafts_sliderCrank`).
-/

namespace Linkage

open Act
open Assembly (Coherent Draft)
open Mechanism (FourBar SliderCrank fourBar sliderCrank)

/-- Nodes have masses, constraints join no other nodes, and their targets are finite numbers or keep angles ahead of those
of constraints that are among them. -/
structure Drivable (nodes : List (NodeId × Node Float)) (constraints : List (ConstraintId × Constraint Float)) : Prop where
  massive : ∀ p ∈ nodes, p.2.base = true ∨ 0 < p.2.mass
  joined : ∀ k ∈ constraints, k.2.shape.nodes ⊆ nodes.map Prod.fst
  targets : ∀ k ∈ constraints, ∀ t ∈ k.2.targets, (∃ x, t = .fixed x) ∨
    ∃ name r, t = .computed ⟨name, .around r 0 Scalar.pi⟩ ∧ r.quantity = .angle ∧ ∃ d ∈ constraints, d.2.id = some r.ref
  finite : ∀ k ∈ constraints, ∀ x, k.2.angleTarget = some (.fixed x) → Scalar.isInfinite x = false

/-- A mechanism with a drivable draft and a positive reach is ready to be driven. -/
theorem Assembly.Draft.ready {m : Mechanism} {cfg : Config Float} {nodes : List (NodeId × Node Float)}
    {constraints : List (ConstraintId × Constraint Float)} {made : List Reference} {a : Assembly Float}
    (h : Draft m.system cfg nodes constraints made a) (hdrivable : Drivable nodes constraints) (hreach : 0 < cfg.reach) :
    m.Ready a := by
  have hmember {c : ConstraintId} (hc : c ∈ (a.system m.system).constraints) :
      ∃ k ∈ constraints, k.1 = c ∧ a.constraint c = k.2 := by
    rw [h.listed] at hc
    obtain ⟨k, hk, rfl⟩ := List.mem_map.mp hc
    exact ⟨k, hk, rfl, (h.constraint k hk).2⟩
  refine ⟨⟨made, h.coherent⟩, ?_, fun c hc n hn => ?_, fun c hc t ht => ?_, fun c hc x hx => ?_⟩
  · rw [h.config]
    exact hreach
  · obtain ⟨k, hk, -, hkc⟩ := hmember hc
    rw [hkc] at hn
    obtain ⟨p, hp, rfl⟩ := List.mem_map.mp (hdrivable.joined k hk hn)
    rw [(h.node p hp).2]
    exact hdrivable.massive p hp
  · obtain ⟨k, hk, -, hkc⟩ := hmember hc
    rw [hkc] at ht
    rcases hdrivable.targets k hk t ht with ⟨x, rfl⟩ | ⟨name, r, rfl, hquantity, d, hd, hid⟩
    · exact .fixed x
    · -- the reference finds the constraint that the draft has under its identifier
      have hdlisted : d.1 ∈ (a.system m.system).constraints := by
        rw [h.listed]
        exact List.mem_map_of_mem hd
      refine .ahead name r d.1 (Assembly.lookUp_ok_iff.mpr ⟨m.system, ?_, ?_, ?_⟩)
      · exact (h.coherent.consistent.owner_iff ..).mp hc
      · refine (h.coherent.consistent.byId?_iff ..).mpr ⟨hdlisted, ?_⟩
        rw [(h.constraint d hd).2, hid]
      · rw [hquantity]
        rfl
  · obtain ⟨k, hk, -, hkc⟩ := hmember hc
    rw [hkc] at hx
    exact hdrivable.finite k hk x hx

/-! ### The mechanisms -/

variable {a : Assembly Float} {made : List Reference}

theorem Node.massive_create {α : Type} [Scalar α] [Scalar.Signs α] (x y : α) (base : Bool) (name : Option String) :
    (Node.create x y base (some 1) name).base = true ∨ 0 < (Node.create x y base (some 1) name).mass := by
  rw [mass_create]
  exact Or.inr Scalar.Signs.one_pos

theorem Mechanism.FourBar.drivable (l : FourBar Float) (v : Vec Float) (g : Gear) (pivot : NodeId) (rocker ground : ConstraintId)
    (name : Label Float) (key : Nat) : Drivable (l.nodes v g pivot)
      (l.constraints v g pivot rocker ground ⟨name, .around ⟨key, "ground", .angle⟩ 0 Scalar.pi⟩) where
  massive p hp := by
    simp only [FourBar.nodes, List.mem_cons, List.not_mem_nil, or_false] at hp
    rcases hp with rfl | rfl | rfl | rfl <;> exact Node.massive_create ..
  joined k hk := by
    simp only [FourBar.constraints, List.mem_cons, List.not_mem_nil, or_false] at hk
    rcases hk with rfl | rfl | rfl | rfl <;> simp [FourBar.nodes, Shape.nodes]
  targets k hk t ht := by
    have hground : ∃ d ∈ l.constraints v g pivot rocker ground ⟨name, .around ⟨key, "ground", .angle⟩ 0 Scalar.pi⟩,
        d.2.id = some "ground" := ⟨_, .tail _ (.tail _ (.tail _ (.head _))), rfl⟩
    simp only [FourBar.constraints, List.mem_cons, List.not_mem_nil, or_false] at hk
    rcases hk with rfl | rfl | rfl | rfl
    all_goals simp only [Constraint.targets, Option.toList_some, Option.toList_none, List.mem_append, List.mem_singleton,
      List.not_mem_nil, or_false] at ht
    · rcases ht with rfl | rfl
      · exact Or.inl ⟨_, rfl⟩
      · exact Or.inl ⟨_, rfl⟩
    · exact Or.inl ⟨_, ht⟩
    · rcases ht with rfl | rfl
      · exact Or.inl ⟨_, rfl⟩
      · exact Or.inr ⟨name, _, rfl, rfl, hground⟩
  finite k hk x hx := by
    simp only [FourBar.constraints, List.mem_cons, List.not_mem_nil, or_false] at hk
    rcases hk with rfl | rfl | rfl | rfl <;> cases hx
    decide +kernel

theorem Mechanism.SliderCrank.drivable (l : SliderCrank Float) (g : Gear) (slider : ConstraintId) :
    Drivable (l.nodes g) (l.constraints g slider) where
  massive p hp := by
    simp only [SliderCrank.nodes, List.mem_cons, List.not_mem_nil, or_false] at hp
    rcases hp with rfl | rfl | rfl <;> exact Node.massive_create ..
  joined k hk := by
    simp only [SliderCrank.constraints, List.mem_cons, List.not_mem_nil, or_false] at hk
    rcases hk with rfl | rfl | rfl <;> simp [SliderCrank.nodes, Shape.nodes]
  targets k hk t ht := by
    simp only [SliderCrank.constraints, List.mem_cons, List.not_mem_nil, or_false] at hk
    rcases hk with rfl | rfl | rfl
    all_goals simp only [Constraint.targets, Option.toList_some, Option.toList_none, List.mem_append, List.mem_singleton,
      List.not_mem_nil, or_false, false_or] at ht
    · rcases ht with rfl | rfl
      · exact Or.inl ⟨_, rfl⟩
      · exact Or.inl ⟨_, rfl⟩
    · exact Or.inl ⟨_, ht⟩
    · exact Or.inl ⟨_, ht⟩
  finite k hk x hx := by
    simp only [SliderCrank.constraints, List.mem_cons, List.not_mem_nil, or_false] at hk
    rcases hk with rfl | rfl | rfl <;> cases hx
    all_goals decide +kernel

/-- What an action builds that drafts a mechanism so that it can be driven, in the ambient configuration. -/
def Drafts (build : Act Float Mechanism) (a : Assembly Float) : Prop :=
  Runs build a fun r b => ∃ m nodes constraints made, r = .ok m ∧ Draft m.system a.ambient nodes constraints made b ∧
    Drivable nodes constraints

theorem drafts_fourBar (h : Coherent made a) {l : FourBar Float} (hcloses : l.closes = true) {v : Vec Float}
    (hv : l.joint = .ok v) : Drafts (fourBar l) a := by
  refine (runs_fourBar_draft h hcloses hv).mono ?_
  rintro _ b ⟨g, pivot, rocker, ground, name, key, -, rfl, hdraft⟩
  exact ⟨_, _, _, _, rfl, hdraft, l.drivable v g pivot rocker ground name key⟩

theorem drafts_sliderCrank (h : Coherent made a) {l : SliderCrank Float} (hlong : ¬l.coupler ≤ l.crank) :
    Drafts (sliderCrank l) a := by
  refine (runs_sliderCrank_draft h hlong).mono ?_
  rintro _ b ⟨g, slider, -, rfl, hdraft⟩
  exact ⟨_, _, _, _, rfl, hdraft, l.drivable g slider⟩

end Linkage
