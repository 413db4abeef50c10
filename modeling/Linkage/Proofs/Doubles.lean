import Mathlib
import Linkage.Scalar.Double

/-!
# Linkage.Proofs.Doubles — rounding keeps signs

The laws of signs that hold of doubles as they do of exact numbers (`Scalar.Signs`).  A double is unpacked into a sign, a
significand and an exponent, and a sum is formed exactly, rounded and packed again.  Rounding takes no positive number of
the format to zero (`round_fits`), and neither packing nor unpacking touches the sign (`above_unpack_pack`).  So the laws
hold without a word about errors, of infinities, of both zeros and next to what is no number.
-/

namespace Linkage

/-- The laws of signs that do not depend on how results are rounded. -/
class Scalar.Signs (α : Type) [Scalar α] : Prop where
  zero_le_zero : (0 : α) ≤ 0
  one_pos : (0 : α) < 1
  epsilon_pos : (0 : α) < Scalar.epsilon
  rootEpsilon_pos : (0 : α) < Scalar.rootEpsilon
  le_of_pos {a : α} : 0 < a → 0 ≤ a
  add_pos {a b : α} : 0 ≤ a → 0 ≤ b → 0 < a ∨ 0 < b → 0 < a + b
  not_isZero_of_pos {a : α} : 0 < a → Scalar.isZero a = false
  not_isZero_of_lt {a b : α} : 0 < a → a < b → Scalar.isZero b = false
  not_isZero_of_not_le {a b : α} : 0 < a → ¬b ≤ a → Scalar.isZero b = false

namespace Number

open Float.Model (Format UnpackedFloat totalExponent)
open Float.Model.UnpackedFloat

/-- Greater than zero; what is no number is not. -/
inductive Above : UnpackedFloat → Prop where
  | infinity : Above (.infinity .positive)
  | finite (m : Nat) (e : Int) (hm : 0 < m) : Above (.finite .positive m e hm)

/-- A zero of either sign. -/
inductive Null : UnpackedFloat → Prop where
  | zero (s : Sign) : Null (.zero s)

/-- A finite number has no more digits than a double, and no smaller unit. -/
def Fits : UnpackedFloat → Prop
  | .finite _ m e _ => m < 2 ^ 53 ∧ -1074 ≤ e
  | _ => True

/-! ### Rounding -/

theorem mantissa_shiftRight (k : Nat) (em : ExtendedMantissa) : (em >>> k).mantissa = em.mantissa / 2 ^ k := by
  induction k with
  | zero => exact (Nat.div_one _).symm
  | succ k ih =>
    change (ExtendedMantissa.shiftRightOne (em >>> k)).mantissa = _
    unfold ExtendedMantissa.shiftRightOne
    rw [ih, Nat.div_div_eq_div_mul, Nat.pow_succ]

theorem mantissa_le_rounded (em : ExtendedMantissa) : em.mantissa ≤ em.roundedMantissa := by
  unfold ExtendedMantissa.roundedMantissa
  cases em.accuracy with
  | exact => exact Nat.le_refl _
  | inexact o =>
    cases o with
    | lt => exact Nat.le_refl _
    | eq => exact Nat.le_add_right _ _
    | gt => exact Nat.le_succ _

theorem mantissa_of_accuracy (m : Nat) (accuracy : Accuracy) :
    (ExtendedMantissa.ofMantissaAndAccuracy m accuracy).mantissa = m := by
  cases accuracy with
  | exact => rfl
  | inexact o => cases o <;> rfl

theorem targetExponent_double (t : Int) : Format.binary64.targetExponent t = max (t - 53) (-1074) := rfl

/-- Of a positive significand something is left above the unit that 53 digits, or the smallest doubles, have. -/
theorem shifted_bounds {m : Nat} (hm : 0 < m) {e : Int} (he : -1074 ≤ e) :
    0 < m / 2 ^ (Format.binary64.targetExponent (totalExponent m e) - e).toNat ∧
      m / 2 ^ (Format.binary64.targetExponent (totalExponent m e) - e).toNat < 2 ^ 53 := by
  rw [targetExponent_double]
  unfold totalExponent
  have hlow : 2 ^ m.log2 ≤ m := Nat.log2_self_le (Nat.ne_of_gt hm)
  have hhigh : m < 2 ^ (m.log2 + 1) := Nat.lt_log2_self
  generalize m.log2 = digits at hlow hhigh ⊢
  -- with 53 digits or more the unit is that of the leading 53, and with fewer nothing is cut off
  by_cases hlong : 52 ≤ digits
  · obtain ⟨k, rfl⟩ := Nat.exists_eq_add_of_le hlong
    have hk : (max (((52 + k : Nat) : Int) + 1 + e - 53) (-1074) - e).toNat = k := by omega
    rw [hk]
    rw [Nat.pow_add] at hlow
    rw [Nat.add_right_comm, Nat.pow_add] at hhigh
    have hpos := Nat.two_pow_pos k
    refine ⟨Nat.div_pos ?_ hpos, (Nat.div_lt_iff_lt_mul hpos).mpr hhigh⟩
    exact Nat.le_trans (Nat.le_mul_of_pos_left _ (Nat.two_pow_pos 52)) hlow
  · have hk : (max ((digits : Int) + 1 + e - 53) (-1074) - e).toNat = 0 := by omega
    rw [hk, Nat.pow_zero, Nat.div_one]
    exact ⟨hm, Nat.lt_of_lt_of_le hhigh (Nat.pow_le_pow_right (by decide) (by omega))⟩

/-- A positive significand in a unit that doubles have is not rounded to zero. -/
theorem round_fits (s : Sign) {m : Nat} (hm : 0 < m) {e : Int} (he : -1074 ≤ e) :
    ∃ m' e' hm', UnpackedFloat.round Format.binary64 s m e = .finite s m' e' hm' ∧ m' < 2 ^ 53 ∧ -1074 ≤ e' := by
  unfold UnpackedFloat.round decreaseExponent
  dsimp only
  have he' : -1074 ≤ e - (e - Format.binary64.targetExponent (totalExponent m e)).toNat := by
    rw [targetExponent_double]
    omega
  have hm' : 0 < m <<< (e - Format.binary64.targetExponent (totalExponent m e)).toNat := by
    rw [Nat.shiftLeft_eq]
    exact Nat.mul_pos hm (Nat.two_pow_pos _)
  generalize m <<< _ = n at hm' ⊢
  generalize e - _ = i at he' ⊢
  -- rounding is made of two shifts: the first leaves something, rounding makes this no smaller, and the second neither
  obtain ⟨hkept, -⟩ := shifted_bounds hm' he'
  unfold roundWithAccuracy shiftToTargetExponent shiftToExponent
  dsimp only
  generalize (Format.binary64.targetExponent (totalExponent n i) - i).toNat = k at hkept ⊢
  have hrounded := mantissa_le_rounded (ExtendedMantissa.ofMantissaAndAccuracy n .exact >>> k)
  rw [mantissa_shiftRight, mantissa_of_accuracy] at hrounded
  generalize ExtendedMantissa.roundedMantissa _ = r at hrounded ⊢
  obtain ⟨hpos, hless⟩ := shifted_bounds (Nat.lt_of_lt_of_le hkept hrounded) (show -1074 ≤ i + k by omega)
  simp only [mantissa_shiftRight, mantissa_of_accuracy]
  rw [dif_neg (Nat.ne_of_gt hpos)]
  exact ⟨_, _, hpos, rfl, hless, by omega⟩

/-! ### Adding -/

theorem above_add_finite {m m' : Nat} (hm : 0 < m) (hm' : 0 < m') {e e' : Int} (he : -1074 ≤ e) (he' : -1074 ≤ e') :
    Above ((UnpackedFloat.finite .positive m e hm).add Format.binary64 (.finite .positive m' e' hm')) ∧
      Fits ((UnpackedFloat.finite .positive m e hm).add Format.binary64 (.finite .positive m' e' hm')) := by
  have hsum : 0 < m <<< (e - min e e').toNat + m' <<< (e' - min e e').toNat := by
    rw [Nat.shiftLeft_eq]
    exact Nat.add_pos_left (Nat.mul_pos hm (Nat.two_pow_pos _)) _
  have hcompare : compare (((m <<< (e - min e e').toNat : Nat) : Int) + (m' <<< (e' - min e e').toNat : Nat)) 0 = .gt :=
    Int.compare_eq_gt.mpr (by omega)
  obtain ⟨n, i, hn, hround, hfits⟩ := round_fits .positive hsum (show -1074 ≤ min e e' by omega)
  have hadd : (UnpackedFloat.finite .positive m e hm).add Format.binary64 (.finite .positive m' e' hm') =
      .finite .positive n i hn := by
    simp only [UnpackedFloat.add, decreaseExponent, UnpackedFloat.normalize, Sign.apply, hcompare]
    rw [← Int.natCast_add, Int.toNat_natCast, hround]
  rw [hadd]
  exact ⟨.finite n i hn, hfits⟩

/-- The sum of numbers that are not negative, and not both zero, is positive. -/
theorem above_add {x y : UnpackedFloat} (hx : Above x ∨ Null x) (hy : Above y ∨ Null y) (hxy : Above x ∨ Above y)
    (hxfits : Fits x) (hyfits : Fits y) : Above (x.add Format.binary64 y) ∧ Fits (x.add Format.binary64 y) := by
  -- by what the summands are: infinities absorb, zeros are absorbed, and two significands are added and rounded
  cases hx with
  | inl hx =>
    cases hx with
    | infinity =>
      cases hy with
      | inl hy => cases hy <;> exact ⟨.infinity, trivial⟩
      | inr hy =>
        cases hy
        exact ⟨.infinity, trivial⟩
    | finite m e hm =>
      cases hy with
      | inl hy =>
        cases hy with
        | infinity => exact ⟨.infinity, trivial⟩
        | finite m' e' hm' => exact above_add_finite hm hm' hxfits.2 hyfits.2
      | inr hy =>
        cases hy
        exact ⟨.finite m e hm, hxfits⟩
  | inr hx =>
    cases hx
    have hpos : Above y := hxy.resolve_left (by rintro ⟨⟩)
    cases hpos with
    | infinity => exact ⟨.infinity, trivial⟩
    | finite m' e' hm' => exact ⟨.finite m' e' hm', hyfits⟩

/-! ### Packing -/

theorem unpackSign_packComponents {spec : Format} (s : Sign) (e : BitVec spec.exponentBits)
    (m : BitVec spec.mantissaBitsWithoutImplicit) : unpackSign (packComponents spec s e m) = s.toBitVec := by
  apply BitVec.eq_of_getLsbD_eq
  intro i hi
  obtain rfl : i = 0 := by omega
  simp [unpackSign, packComponents, BitVec.getLsbD_append, BitVec.getElem_append]

/-- Bits with a positive sign stand for a number above zero unless all others are zero, or the exponent is that of what is
no number. -/
theorem above_unpack_packComponents {spec : Format} {e : BitVec spec.exponentBits}
    {m : BitVec spec.mantissaBitsWithoutImplicit} (hmin : e = 0#_ → m ≠ 0#_) (hmax : e = -1#_ → m = 0#_) :
    Above (UnpackedFloat.unpack spec (packComponents spec .positive e m)) := by
  have hsign : Sign.ofBitVec Sign.positive.toBitVec = .positive := rfl
  unfold UnpackedFloat.unpack
  simp only [unpackMantissa_packComponents, unpackExponent_packComponents, unpackSign_packComponents, hsign]
  split
  case isTrue h =>
    rw [if_pos (hmax h)]
    exact .infinity
  case isFalse =>
    split
    case isTrue h =>
      rw [dif_neg (hmin h)]
      exact .finite _ _ _
    case isFalse => exact .finite _ _ _

theorem exponentBias_double : Format.binary64.exponentBias = 1023 := rfl

/-- Packing keeps what is above zero above zero. -/
theorem above_unpack_pack {x : UnpackedFloat} (hx : Above x) (hfits : Fits x) :
    Above (UnpackedFloat.unpack Format.binary64 (UnpackedFloat.pack Format.binary64 x)) := by
  have hinfinity : Above (UnpackedFloat.unpack Format.binary64 (packedInfinity Format.binary64 .positive)) :=
    above_unpack_packComponents (fun h => absurd h (by decide)) fun _ => rfl
  cases hx with
  | infinity => exact hinfinity
  | finite m e hm =>
    obtain ⟨hless, hleast⟩ := hfits
    unfold UnpackedFloat.pack
    dsimp only
    rw [exponentBias_double]
    generalize hbiased : (e + (1023 : Nat) + (52 : Nat)).toNat = biased
    split
    -- a significand of 53 digits has an exponent that is neither the smallest nor the largest of the field
    case isTrue => exact hinfinity
    case isFalse hroom =>
      have hbiased' : 1 ≤ biased ∧ biased + 1 < 2 ^ 11 := by omega
      split
      case isTrue =>
        have hmod : biased % 2 ^ 11 = biased := Nat.mod_eq_of_lt (by omega)
        refine above_unpack_packComponents (fun h => ?_) fun h => ?_
        · have hbits : biased % 2 ^ 11 = 0 := congrArg BitVec.toNat h
          omega
        · have hbits : biased % 2 ^ 11 = 2 ^ 11 - 1 := congrArg BitVec.toNat h
          omega
      case isFalse hshort =>
        refine above_unpack_packComponents (fun _ h => ?_) fun h => absurd h (by decide)
        have hdigits : m.log2 < 53 := (Nat.log2_lt (Nat.ne_of_gt hm)).mpr hless
        have hshort' : m.log2 + 1 ≠ 53 := hshort
        have hless' : m < 2 ^ 52 := (Nat.log2_lt (Nat.ne_of_gt hm)).mp (by omega)
        have hbits : m % 2 ^ 52 = 0 := congrArg BitVec.toNat h
        rw [Nat.mod_eq_of_lt hless'] at hbits
        omega

/-- What doubles unpack to fits the format. -/
theorem fits_unpack (b : BitVec Format.binary64.numBits) : Fits (UnpackedFloat.unpack Format.binary64 b) := by
  unfold UnpackedFloat.unpack
  dsimp only
  rw [exponentBias_double]
  split
  case isTrue =>
    split
    · exact trivial
    · exact trivial
  case isFalse =>
    split
    case isTrue =>
      split
      case isTrue => exact trivial
      case isFalse =>
        have hless : (unpackMantissa b).toNat < 2 ^ 52 := (unpackMantissa b).isLt
        exact ⟨by omega, by omega⟩
    case isFalse hzero =>
      have hless : (1#1 ++ unpackMantissa b).toNat < 2 ^ 53 := (1#1 ++ unpackMantissa b).isLt
      have hpos : (unpackExponent b).toNat ≠ 0 := fun h => hzero (BitVec.eq_of_toNat_eq h)
      exact ⟨hless, by omega⟩

/-! ### Comparing -/

section Compare

variable {x y : UnpackedFloat}

theorem lt_zero_iff : UnpackedFloat.lt (.zero .positive) x = true ↔ Above x := by
  constructor
  · intro h
    cases x with
    | notANumber => exact nomatch h
    | zero s => exact nomatch h
    | infinity s =>
      cases s with
      | negative => exact nomatch h
      | positive => exact .infinity
    | finite s m e hm =>
      cases s with
      | negative => exact nomatch h
      | positive => exact .finite m e hm
  · intro h
    cases h with
    | infinity => rfl
    | finite m e hm => rfl

theorem le_zero_iff : UnpackedFloat.le (.zero .positive) x = true ↔ Above x ∨ Null x := by
  constructor
  · intro h
    cases x with
    | notANumber => exact nomatch h
    | zero s => exact Or.inr (.zero s)
    | infinity s =>
      cases s with
      | negative => exact nomatch h
      | positive => exact Or.inl .infinity
    | finite s m e hm =>
      cases s with
      | negative => exact nomatch h
      | positive => exact Or.inl (.finite m e hm)
  · intro h
    cases h with
    | inl h => cases h <;> rfl
    | inr h =>
      cases h
      rfl

theorem not_null_of_above (hx : Above x) (hx' : Null x) : False := by
  cases hx'
  cases hx

theorem not_le_zero_of_above (h : Above x) : UnpackedFloat.le x (.zero .positive) = false := by
  cases h with
  | infinity => rfl
  | finite m e hm => rfl

theorem not_lt_of_null (hx : Above x) (hy : Null y) : UnpackedFloat.lt x y = false := by
  cases hy
  cases hx with
  | infinity => rfl
  | finite m e hm => rfl

theorem le_of_null (hx : Above x) (hy : Null y) : UnpackedFloat.le y x = true := by
  cases hy
  cases hx with
  | infinity => rfl
  | finite m e hm => rfl

end Compare

/-! ### Doubles -/

variable {a b : Float}

theorem lt_iff : a < b ↔ UnpackedFloat.lt a.toModel.unpack b.toModel.unpack = true := by
  change Float.lt a b = true ↔ _
  rw [Float.lt, decide_eq_true_eq]
  rfl

theorem le_iff : a ≤ b ↔ UnpackedFloat.le a.toModel.unpack b.toModel.unpack = true := by
  change Float.le a b = true ↔ _
  rw [Float.le, decide_eq_true_eq]
  rfl

theorem pos_iff : (Zero.zero : Float) < a ↔ Above a.toModel.unpack := lt_iff.trans lt_zero_iff

theorem nonneg_iff : (Zero.zero : Float) ≤ a ↔ Above a.toModel.unpack ∨ Null a.toModel.unpack := le_iff.trans le_zero_iff

theorem null_of_isZero (h : Scalar.isZero a = true) : Null a.toModel.unpack := by
  obtain ⟨hle, hge⟩ := (Bool.and_eq_true ..).mp h
  refine (nonneg_iff.mp (of_decide_eq_true hge)).resolve_left fun habove => ?_
  have hnot := le_iff.mp (of_decide_eq_true hle)
  exact nomatch hnot.symm.trans (not_le_zero_of_above habove)

instance : Scalar.Signs Float where
  zero_le_zero := le_iff.mpr rfl
  one_pos := lt_iff.mpr rfl
  epsilon_pos := lt_iff.mpr rfl
  rootEpsilon_pos := lt_iff.mpr rfl
  le_of_pos h := nonneg_iff.mpr (Or.inl (pos_iff.mp h))
  add_pos {a b} ha hb hab := by
    obtain ⟨habove, hfits⟩ := above_add (nonneg_iff.mp ha) (nonneg_iff.mp hb) (hab.imp pos_iff.mp pos_iff.mp)
      (fits_unpack a.toModel.toBits.toBitVec) (fits_unpack b.toModel.toBits.toBitVec)
    exact pos_iff.mpr (above_unpack_pack habove hfits)
  not_isZero_of_pos {a} ha := Bool.eq_false_iff.mpr fun h => not_null_of_above (pos_iff.mp ha) (null_of_isZero h)
  not_isZero_of_lt {a b} ha hab := by
    refine Bool.eq_false_iff.mpr fun h => ?_
    exact nomatch (lt_iff.mp hab).symm.trans (not_lt_of_null (pos_iff.mp ha) (null_of_isZero h))
  not_isZero_of_not_le {a b} ha hab := by
    refine Bool.eq_false_iff.mpr fun h => hab ?_
    exact le_iff.mpr (le_of_null (pos_iff.mp ha) (null_of_isZero h))

end Number

end Linkage
