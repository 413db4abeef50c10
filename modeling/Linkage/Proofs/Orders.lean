import Linkage.Proofs.Doubles
import Linkage.Proofs.Exact

/-!
# Linkage.Proofs.Orders — how numbers compare

A double may be no number, and then it compares with nothing.  Among numbers the comparisons are those of a linear order
in which the two zeros have one place (`Scalar.Ordered`): `place` takes an unpacked double to its side of zero, its
exponent and its significand, and comparing doubles is comparing these in turn (`compare_eq_place`).
-/

namespace Linkage

/-- The laws of comparisons that hold where doubles are numbers. -/
class Scalar.Ordered (α : Type) [Scalar α] : Prop where
  lt_asymm {a b : α} : a < b → ¬b < a
  not_lt_trans {a b c : α} : Scalar.same b b = true → ¬a < b → ¬b < c → ¬a < c
  le_iff {a b : α} : Scalar.same a a = true → Scalar.same b b = true → (a ≤ b ↔ ¬b < a)
  same_abs {a : α} : Scalar.same a a = true → Scalar.same (Scalar.abs a) (Scalar.abs a) = true

theorem Scalar.same_iff {α : Type} [Scalar α] {a b : α} : Scalar.same a b = true ↔ a ≤ b ∧ b ≤ a := by
  unfold Scalar.same
  rw [Bool.and_eq_true, decide_eq_true_iff, decide_eq_true_iff]

instance : Scalar.Ordered ℝ where
  lt_asymm h := lt_asymm h
  not_lt_trans _ h h' := not_lt.mpr (le_trans (not_lt.mp h') (not_lt.mp h))
  le_iff _ _ := not_lt.symm
  same_abs _ := Scalar.same_iff.mpr ⟨le_refl _, le_refl _⟩

namespace Number

open Float.Model (Format UnpackedFloat)

/-- Where a number stands: its side of zero, then its exponent, then its significand. -/
def place : UnpackedFloat → ℤ ×ₗ ℤ ×ₗ ℤ
  | .infinity .negative => toLex (-2, toLex (0, 0))
  | .finite .negative m e _ => toLex (-1, toLex (-e, -m))
  | .zero _ | .notANumber => toLex (0, toLex (0, 0))
  | .finite .positive m e _ => toLex (1, toLex (e, m))
  | .infinity .positive => toLex (2, toLex (0, 0))

theorem compare_natCast (m m' : ℕ) : compare (m : ℤ) (m' : ℤ) = compare m m' := by
  rw [← cmp_eq_compare, ← cmp_eq_compare]
  exact Nat.strictMono_cast.cmp_map_eq m m'

theorem compare_neg (e e' : ℤ) : compare (-e) (-e') = (compare e e').swap := by
  have hanti : StrictAnti fun e : ℤ => -e := fun _ _ h => Int.neg_lt_neg h
  rw [← cmp_eq_compare, ← cmp_eq_compare, cmp_swap]
  exact hanti.cmp_map_eq e e'

variable {x y : UnpackedFloat}

/-- Numbers compare as their places do. -/
theorem compare_eq_place (hx : x ≠ .notANumber) (hy : y ≠ .notANumber) :
    x.compare y = some (compare (place x) (place y)) := by
  cases x with
  | notANumber => exact absurd rfl hx
  | infinity s =>
    cases y with
    | notANumber => exact absurd rfl hy
    | infinity s' => cases s <;> cases s' <;> rfl
    | zero s' => cases s <;> rfl
    | finite s' m e hm => cases s <;> cases s' <;> rfl
  | zero s =>
    cases y with
    | notANumber => exact absurd rfl hy
    | infinity s' => cases s' <;> rfl
    | zero s' => rfl
    | finite s' m e hm => cases s' <;> rfl
  | finite s m e hm =>
    cases y with
    | notANumber => exact absurd rfl hy
    | infinity s' => cases s <;> cases s' <;> rfl
    | zero s' => cases s <;> rfl
    | finite s' m' e' hm' =>
      -- only numbers on one side of zero are told apart by exponent and significand
      cases s with
      | negative =>
        cases s' with
        | negative =>
          simp [UnpackedFloat.compare, place, Prod.Lex.compare_def, compareLex, compareOn, compare_natCast, compare_neg,
            Ordering.swap_then]
        | positive => rfl
      | positive =>
        cases s' with
        | negative => rfl
        | positive =>
          simp [UnpackedFloat.compare, place, Prod.Lex.compare_def, compareLex, compareOn, compare_natCast]

theorem lt_iff_place (hx : x ≠ .notANumber) (hy : y ≠ .notANumber) :
    UnpackedFloat.lt x y = true ↔ place x < place y := by
  unfold UnpackedFloat.lt
  rw [compare_eq_place hx hy]
  simp [compare_lt_iff_lt]

theorem le_iff_place (hx : x ≠ .notANumber) (hy : y ≠ .notANumber) :
    UnpackedFloat.le x y = true ↔ place x ≤ place y := by
  unfold UnpackedFloat.le
  rw [compare_eq_place hx hy]
  exact Ordering.isLE_iff_ne_gt.trans compare_le_iff_le

/-- What is no number is not less than anything, and nothing is less than it. -/
theorem ne_of_lt (h : UnpackedFloat.lt x y = true) : x ≠ .notANumber ∧ y ≠ .notANumber := by
  constructor
  · rintro rfl
    cases h
  · rintro rfl
    cases x <;> cases h

variable {a b c : Float}

theorem same_self_iff : Scalar.same a a = true ↔ a.toModel.unpack ≠ .notANumber := by
  rw [Scalar.same_iff, and_self_iff, le_iff]
  constructor
  · intro h hnone
    rw [hnone] at h
    cases h
  · intro h
    exact (le_iff_place h h).mpr (le_refl _)

/-- The size of a number is a number. -/
theorem unpack_abs (h : a.toModel.unpack ≠ .notANumber) : a.abs.toModel.unpack ≠ .notANumber := by
  have hunpack : a.abs.toModel.unpack =
      UnpackedFloat.unpack Format.binary64 (UnpackedFloat.pack Format.binary64 a.toModel.unpack.abs) := rfl
  have hfits : Fits a.toModel.unpack := fits_unpack a.toModel.toBits.toBitVec
  rw [hunpack]
  -- what is above zero stays there when it is packed, so that it stays a number
  have habove {x : UnpackedFloat} (hx : Above x) (hxfits : Fits x) :
      UnpackedFloat.unpack Format.binary64 (UnpackedFloat.pack Format.binary64 x) ≠ .notANumber := by
    intro hnone
    have hpacked := above_unpack_pack hx hxfits
    rw [hnone] at hpacked
    cases hpacked
  cases hx : a.toModel.unpack with
  | notANumber => exact absurd hx h
  | infinity s => exact habove .infinity trivial
  | zero s =>
    have hzero : UnpackedFloat.le (.zero .positive) (UnpackedFloat.unpack Format.binary64
        (UnpackedFloat.pack Format.binary64 (.zero .positive))) = true := by decide +kernel
    intro hnone
    have hnone' : UnpackedFloat.unpack Format.binary64 (UnpackedFloat.pack Format.binary64 (.zero .positive)) =
        .notANumber := hnone
    rw [hnone'] at hzero
    cases hzero
  | finite s m e hm =>
    rw [hx] at hfits
    exact habove (.finite m e hm) hfits

instance : Scalar.Ordered Float where
  lt_asymm {a b} h := by
    rw [lt_iff] at h ⊢
    obtain ⟨ha, hb⟩ := ne_of_lt h
    rw [lt_iff_place hb ha]
    exact not_lt_of_gt ((lt_iff_place ha hb).mp h)
  not_lt_trans {a b c} hb h h' := by
    rw [lt_iff] at h h' ⊢
    intro hac
    obtain ⟨ha, hc⟩ := ne_of_lt hac
    have hb := same_self_iff.mp hb
    rw [lt_iff_place ha hb] at h
    rw [lt_iff_place hb hc] at h'
    rw [lt_iff_place ha hc] at hac
    exact absurd hac (not_lt.mpr (le_trans (not_lt.mp h') (not_lt.mp h)))
  le_iff {a b} ha hb := by
    have ha := same_self_iff.mp ha
    have hb := same_self_iff.mp hb
    rw [le_iff, lt_iff, le_iff_place ha hb, lt_iff_place hb ha]
    exact not_lt.symm
  same_abs {a} ha := same_self_iff.mpr (unpack_abs (same_self_iff.mp ha))

end Number

end Linkage
