import Linkage.Assembly
import Linkage.Pass
import Mathlib.Analysis.SpecialFunctions.Complex.Arg

/-!
# Linkage.Proofs.Exact — layouts in exact arithmetic

The reals as scalars: every operation is exact, every number is finite, and comparisons are those of the order.  What is
proved of the definitions over the reals is what they compute apart from rounding.  Vectors are read as complex numbers,
and the shares of a correction are those of inverse masses: not negative, and one in sum unless nothing can move.
-/

namespace Linkage

/-- Division of reals is that of the field, also where they are scalars. -/
noncomputable instance divReal : Div ℝ := inferInstance

noncomputable instance : Scalar ℝ where
  toZero := inferInstance
  toOne := inferInstance
  toAdd := inferInstance
  toSub := inferInstance
  toMul := inferInstance
  toDiv := inferInstance
  toNeg := inferInstance
  toLT := inferInstance
  toLE := inferInstance
  decideLt := inferInstance
  decideLe := inferInstance
  abs x := |x|
  sqrt := Real.sqrt
  hypot x y := Real.sqrt (x ^ 2 + y ^ 2)
  arctan y x := Complex.arg ⟨x, y⟩
  cos := Real.cos
  sin := Real.sin
  floorMod x y := x - y * ⌊x / y⌋
  pi := Real.pi
  epsilon := ((2 ^ 52 : ℕ) : ℝ)⁻¹
  rootEpsilon := ((2 ^ 26 : ℕ) : ℝ)⁻¹
  degrees x := x * (180 / Real.pi)
  isFinite _ := true
  isInfinite _ := false
  ofInt? n := some n
  truncate? x := some (if 0 ≤ x then ⌊x⌋ else ⌈x⌉)

namespace Scalar

@[simp] theorem abs_real (x : ℝ) : Scalar.abs x = |x| := rfl

@[simp] theorem hypot_real (x y : ℝ) : Scalar.hypot x y = Real.sqrt (x ^ 2 + y ^ 2) := rfl

theorem two_real : (Scalar.two : ℝ) = 2 := one_add_one_eq_two

@[simp] theorem heading_real (x : ℝ) : Scalar.heading x = .ok ⟨Real.cos x, Real.sin x⟩ := rfl

@[simp] theorem isZero_real (x : ℝ) : Scalar.isZero x = true ↔ x = 0 := by
  have hsame : Scalar.isZero x = (decide (x ≤ 0) && decide (0 ≤ x)) := rfl
  rw [hsame, Bool.and_eq_true, decide_eq_true_iff, decide_eq_true_iff]
  exact antisymm_iff

theorem divide_eq_ok {x y q : ℝ} : Scalar.divide x y = .ok q ↔ y ≠ 0 ∧ q = x / y := by
  unfold Scalar.divide
  split
  case isTrue hy => exact ⟨fun h => (nomatch h), fun h => absurd ((isZero_real y).mp hy) h.1⟩
  case isFalse hy =>
    exact ⟨fun h => ⟨mt (isZero_real y).mpr hy, (Except.ok.inj h).symm⟩, fun h => congrArg Except.ok h.2.symm⟩

end Scalar

/-- No position is infinite. -/
theorem Assembly.isFinite_real (a : Assembly ℝ) (s : SystemId) : a.isFinite s = true :=
  List.all_eq_true.mpr fun _ _ => rfl

/-! ### Vectors as complex numbers -/

def Vec.toComplex (v : Vec ℝ) : ℂ := ⟨v.x, v.y⟩

theorem Vec.length_eq_norm (v : Vec ℝ) : v.length = ‖v.toComplex‖ := by
  rw [Complex.norm_eq_sqrt_sq_add_sq]
  rfl

theorem Vec.length_upright {y : ℝ} (hy : 0 ≤ y) : (⟨0 - 0, y - 0⟩ : Vec ℝ).length = y := by
  unfold Vec.length
  rw [Scalar.hypot_real, show ((0 : ℝ) - 0) ^ 2 + (y - 0) ^ 2 = y ^ 2 by ring, Real.sqrt_sq hy]

/-- The distance of a point from the line through the origin with the angle `w`, with a sign for the side. -/
noncomputable def offset (z : ℂ) (w : ℝ) : ℝ := -z.re * Real.sin w + z.im * Real.cos w

theorem offset_sub (z d : ℂ) (w : ℝ) : offset (z - d) w = offset z w - offset d w := by
  simp only [offset, Complex.sub_re, Complex.sub_im]
  ring

theorem offset_mul (part : ℝ) (z : ℂ) (w : ℝ) : offset (part * z) w = part * offset z w := by
  simp only [offset, Complex.re_ofReal_mul, Complex.im_ofReal_mul]
  ring

theorem abs_offset_le (z : ℂ) (w : ℝ) : |offset z w| ≤ ‖z‖ := by
  rw [Complex.norm_eq_sqrt_sq_add_sq]
  refine Real.abs_le_sqrt ?_
  have hparts : offset z w ^ 2 + (z.re * Real.cos w + z.im * Real.sin w) ^ 2 = z.re ^ 2 + z.im ^ 2 := by
    unfold offset
    linear_combination (z.re ^ 2 + z.im ^ 2) * Real.sin_sq_add_cos_sq w
  have := sq_nonneg (z.re * Real.cos w + z.im * Real.sin w)
  linarith

namespace Node

/-- The position of a node. -/
def place (n : Node ℝ) : ℂ := ⟨n.x, n.y⟩

@[simp] theorem toComplex_vectorTo (a b : Node ℝ) : (a.vectorTo b).toComplex = b.place - a.place := rfl

@[simp] theorem place_addBoost (n : Node ℝ) : n.addBoost.place = n.place := by
  unfold addBoost
  split
  · rfl
  · rfl

end Node

/-! ### Masses and shares -/

theorem ok_of_bind {ε β γ : Type} {r : Except ε β} {f : β → Except ε γ} {y : γ} (h : r >>= f = .ok y) :
    ∃ x, r = .ok x ∧ f x = .ok y := by
  cases r with
  | error e => exact nomatch h
  | ok x => exact ⟨x, rfl, h⟩

/-- The node never moves, or it has a positive mass and at most corrections counted on top. -/
def Node.Heavy (n : Node ℝ) : Prop := n.base = true ∨ 0 < n.mass ∧ 0 ≤ n.boost

theorem Node.Heavy.effectiveMass_pos {n : Node ℝ} (h : n.Heavy) (hfree : n.base = false) : 0 < n.effectiveMass := by
  obtain ⟨hmass, hboost⟩ := h.resolve_left (by simp [hfree])
  exact add_pos_of_pos_of_nonneg hmass hboost

theorem Node.Heavy.inverseMass_nonneg {n : Node ℝ} (h : n.Heavy) {m : ℝ} (hm : n.inverseMass = .ok m) : 0 ≤ m := by
  unfold Node.inverseMass at hm
  split at hm
  case isTrue => exact (Except.ok.inj hm).le
  case isFalse hfree =>
    obtain ⟨-, rfl⟩ := Scalar.divide_eq_ok.mp hm
    exact (one_div_pos.mpr (h.effectiveMass_pos (Bool.eq_false_iff.mpr hfree))).le

/-- Shares of a correction: not negative, and one in sum unless nothing can move. -/
structure Fair (share : ℝ × ℝ) : Prop where
  first : 0 ≤ share.1
  second : 0 ≤ share.2
  sum : share.1 + share.2 = 1 ∨ share.1 + share.2 = 0

theorem Fair.sum_le_one {share : ℝ × ℝ} (h : Fair share) : share.1 + share.2 ≤ 1 := by
  rcases h.sum with hsum | hsum
  · exact hsum.le
  · exact hsum.le.trans zero_le_one

theorem fair_of_shares {p q : ℝ} (hp : 0 ≤ p) (hq : 0 ≤ q) {share : ℝ × ℝ} (h : shares p q = .ok share) :
    Fair share := by
  unfold shares at h
  dsimp only at h
  split at h
  case isTrue hzero =>
    cases h
    exact ⟨hp, hq, Or.inr ((Scalar.isZero_real _).mp hzero)⟩
  case isFalse =>
    obtain ⟨s₁, hs₁, h⟩ := ok_of_bind h
    obtain ⟨s₂, hs₂, h⟩ := ok_of_bind h
    cases h
    obtain ⟨hne, rfl⟩ := Scalar.divide_eq_ok.mp hs₁
    obtain ⟨-, rfl⟩ := Scalar.divide_eq_ok.mp hs₂
    have hsum : 0 ≤ p + q := add_nonneg hp hq
    refine ⟨div_nonneg hp hsum, div_nonneg hq hsum, Or.inl ?_⟩
    rw [← add_div]
    exact div_self hne

theorem Ends.fair {e : Ends ℝ} (hfirst : e.first.Heavy) (hsecond : e.second.Heavy) {share : ℝ × ℝ}
    (h : e.shares = .ok share) : Fair share := by
  obtain ⟨p, hp, h⟩ := ok_of_bind h
  obtain ⟨q, hq, h⟩ := ok_of_bind h
  exact fair_of_shares (hfirst.inverseMass_nonneg hp) (hsecond.inverseMass_nonneg hq) h

/-- The arm of a triple takes its share as the second end of a pair does. -/
theorem Corner.fair {k : Corner ℝ} (hapex : k.apex.Heavy) (harm : k.arm.Heavy) {share : ℝ}
    (h : k.armShare = .ok share) : 0 ≤ share ∧ share ≤ 1 := by
  obtain ⟨p, hp, h⟩ := ok_of_bind h
  obtain ⟨q, hq, h⟩ := ok_of_bind h
  have hp := hapex.inverseMass_nonneg hp
  have hq := harm.inverseMass_nonneg hq
  split at h
  case isTrue hzero =>
    cases h
    have := (Scalar.isZero_real _).mp hzero
    exact ⟨hq, by linarith⟩
  case isFalse =>
    obtain ⟨-, rfl⟩ := Scalar.divide_eq_ok.mp h
    have hsum : 0 ≤ p + q := add_nonneg hp hq
    exact ⟨div_nonneg hq hsum, div_le_one_of_le₀ (le_add_of_nonneg_left hp) hsum⟩

end Linkage
