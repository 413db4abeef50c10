import Linkage.Constraint.Shape
import Linkage.Proofs.Doubles

/-!
# Linkage.Proofs.Bounds — wanted angles do not overflow

A target that keeps an angle in an interval around another one clamps a difference and adds the other angle.  Both are
small: less than eight in size, or no number at all (`Small`).  The exponent of a sum is at most two above the exponents
of its terms, even after rounding (`within_add`), so the sum is far from overflowing, whatever the positions have become
(`isInfinite_ahead`).
-/

namespace Linkage.Number

open Float.Model (Format UnpackedFloat totalExponent)
open Float.Model.UnpackedFloat

/-- Not infinite, and the unit of its significand is at most `2 ^ most`. -/
def Within (most : Int) : UnpackedFloat → Prop
  | .infinity _ => False
  | .finite _ _ e _ => e ≤ most
  | _ => True

instance (most : Int) : DecidablePred (Within most)
  | .notANumber => isTrue trivial
  | .infinity _ => isFalse id
  | .zero _ => isTrue trivial
  | .finite _ _ e _ => inferInstanceAs (Decidable (e ≤ most))

/-! ### Digits -/

theorem log2_of_bounds {m k : Nat} (hlow : 2 ^ k ≤ m) (hhigh : m < 2 ^ (k + 1)) : m.log2 = k :=
  (Nat.log2_eq_iff (Nat.ne_of_gt (Nat.lt_of_lt_of_le (Nat.two_pow_pos k) hlow))).mpr ⟨hlow, hhigh⟩

theorem bounds_of_log2 {m k : Nat} (hm : 0 < m) (h : m.log2 = k) : 2 ^ k ≤ m ∧ m < 2 ^ (k + 1) :=
  (Nat.log2_eq_iff (Nat.ne_of_gt hm)).mp h

theorem log2_shiftLeft {m : Nat} (hm : 0 < m) (k : Nat) : (m <<< k).log2 = m.log2 + k := by
  obtain ⟨hlow, hhigh⟩ := bounds_of_log2 hm rfl
  rw [Nat.shiftLeft_eq]
  refine log2_of_bounds ?_ ?_
  · rw [Nat.pow_add]
    exact Nat.mul_le_mul_right _ hlow
  · rw [Nat.add_right_comm, Nat.pow_add]
    exact Nat.mul_lt_mul_of_pos_right hhigh (Nat.two_pow_pos k)

/-! ### Rounding -/

theorem rounded_le_succ (em : ExtendedMantissa) : em.roundedMantissa ≤ em.mantissa + 1 := by
  unfold ExtendedMantissa.roundedMantissa
  rcases em.accuracy with _ | _ | _ | _
  all_goals simp [Accuracy.roundToNearestEven]
  omega

/-- The exponent that a significand is brought to is no larger than those of 53 digits and of the smallest doubles. -/
theorem targetExponent_le {m : Nat} {e most : Int} (hmost : -1074 ≤ most) (hsize : totalExponent m e ≤ most + 53) :
    Format.binary64.targetExponent (totalExponent m e) ≤ most := by
  rw [targetExponent_double]
  omega

/-- Rounding moves the exponent up by one at most, where the significand carries. -/
theorem within_round (s : Sign) {m : Nat} (hm : 0 < m) {e most : Int} (he : -1074 ≤ e) (hmost : -1074 ≤ most)
    (hsize : totalExponent m e ≤ most + 53) : Within (most + 1) (UnpackedFloat.round Format.binary64 s m e) := by
  have htarget := targetExponent_le hmost hsize
  unfold UnpackedFloat.round decreaseExponent
  dsimp only
  set k := (e - Format.binary64.targetExponent (totalExponent m e)).toNat with hk
  have hleast : -1074 ≤ Format.binary64.targetExponent (totalExponent m e) := by
    rw [targetExponent_double]
    omega
  have hn : 0 < m <<< k := by
    rw [Nat.shiftLeft_eq]
    exact Nat.mul_pos hm (Nat.two_pow_pos k)
  have hsize' : totalExponent (m <<< k) (e - k) ≤ most + 53 := by
    have hlog := log2_shiftLeft hm k
    unfold totalExponent at hsize ⊢
    omega
  have he' : -1074 ≤ e - k := by omega
  have hmost' : e - k ≤ most := by omega
  generalize m <<< k = n at hn hsize' ⊢
  generalize e - k = i at he' hmost' hsize' ⊢
  -- the first shift leaves 53 digits, which rounding may turn into the next power of two
  have htarget' := targetExponent_le hmost hsize'
  obtain ⟨-, hkept⟩ := shifted_bounds hn he'
  unfold roundWithAccuracy shiftToTargetExponent shiftToExponent
  dsimp only
  generalize Format.binary64.targetExponent (totalExponent n i) = t at htarget' hkept ⊢
  have hrounded := rounded_le_succ (ExtendedMantissa.ofMantissaAndAccuracy n .exact >>> (t - i).toNat)
  rw [mantissa_shiftRight, mantissa_of_accuracy] at hrounded
  generalize ExtendedMantissa.roundedMantissa _ = r at hrounded ⊢
  have hcarry : Format.binary64.targetExponent (totalExponent r (i + (t - i).toNat)) ≤ most + 1 := by
    have hlog : r.log2 < 54 := by
      by_cases hr : r = 0
      · simp [hr]
      · rw [Nat.log2_lt hr]
        omega
    refine targetExponent_le (by omega) ?_
    unfold totalExponent
    omega
  split
  · trivial
  · change i + (t - i).toNat + _ ≤ most + 1
    omega

/-! ### Adding -/

theorem shiftLeft_lt {m k k' : Nat} (hm : m < 2 ^ 53) (hk : k ≤ k') : m <<< k < 2 ^ (53 + k') := by
  rw [Nat.shiftLeft_eq]
  have hpow : 2 ^ 53 * 2 ^ k ≤ 2 ^ (53 + k') := by
    rw [← Nat.pow_add]
    exact Nat.pow_le_pow_right (by decide) (by omega)
  exact Nat.lt_of_lt_of_le (Nat.mul_lt_mul_of_pos_right hm (Nat.two_pow_pos k)) hpow

/-- A sum of two significands in the smaller of their units has a digit more at most. -/
theorem within_normalize {mantissa e most : Int} (he : -1074 ≤ e) (hmost : e ≤ most)
    (hsize : mantissa.natAbs < 2 ^ (54 + (most - e).toNat)) (s : Sign) :
    Within (most + 2) (UnpackedFloat.normalize Format.binary64 mantissa e s) := by
  have hround (s : Sign) {m : Nat} (hm : 0 < m) (hsize : m < 2 ^ (54 + (most - e).toNat)) :
      Within (most + 2) (UnpackedFloat.round Format.binary64 s m e) := by
    have hlog := (Nat.log2_lt (Nat.ne_of_gt hm)).mpr hsize
    have htotal : totalExponent m e ≤ most + 1 + 53 := by
      unfold totalExponent
      omega
    have hrounded := within_round s hm he (by omega) htotal
    rwa [Int.add_assoc] at hrounded
  unfold UnpackedFloat.normalize
  split
  case h_1 h =>
    have hless := Int.compare_eq_lt.mp h
    exact hround _ (by omega) (by omega)
  case h_2 => trivial
  case h_3 h =>
    have hgreater := Int.compare_eq_gt.mp h
    exact hround _ (by omega) (by omega)

theorem within_mono {most most' : Int} (h : most ≤ most') {x : UnpackedFloat} (hx : Within most x) : Within most' x := by
  cases x with
  | notANumber => trivial
  | infinity s => exact hx
  | zero s => trivial
  | finite s m e hm => exact Int.le_trans hx h

/-- The exponent of a sum is at most two above those of its terms. -/
theorem within_add {most : Int} {x y : UnpackedFloat} (hx : Within most x) (hy : Within most y) (hxfits : Fits x)
    (hyfits : Fits y) : Within (most + 2) (x.add Format.binary64 y) := by
  have hmono {x : UnpackedFloat} (hx : Within most x) : Within (most + 2) x := within_mono (by omega) hx
  cases x with
  | notANumber => cases y <;> trivial
  | infinity s => exact hx.elim
  | zero s =>
    cases y with
    | notANumber => trivial
    | infinity s' => exact hy.elim
    | zero s' =>
      change Within _ (if s == s' then .zero s else .zero .positive)
      split <;> trivial
    | finite s' m' e' hm' => exact hmono hy
  | finite s m e hm =>
    cases y with
    | notANumber => trivial
    | infinity s' => exact hy.elim
    | zero s' => exact hmono hx
    | finite s' m' e' hm' =>
      obtain ⟨hm53, he⟩ := hxfits
      obtain ⟨hm53', he'⟩ := hyfits
      -- zeros and infinities are settled: what is left are two significands, shifted to the smaller exponent and added
      change e ≤ most at hx
      change e' ≤ most at hy
      refine within_normalize (by omega) (by omega) ?_ _
      have hfirst := shiftLeft_lt hm53 (show (e - min e e').toNat ≤ (most - min e e').toNat by omega)
      have hsecond := shiftLeft_lt hm53' (show (e' - min e e').toNat ≤ (most - min e e').toNat by omega)
      have hpow : 2 ^ (54 + (most - min e e').toNat) = 2 * 2 ^ (53 + (most - min e e').toNat) := by
        rw [← Nat.pow_succ', ← Nat.succ_add]
      have habs (p q : Nat) : (s.apply p + s'.apply q).natAbs ≤ p + q := by
        cases s <;> cases s' <;> simp only [Sign.apply] <;> omega
      rw [hpow]
      exact Nat.lt_of_le_of_lt (habs _ _) (by omega)

/-! ### Packing -/

/-- Bits whose exponent is not the largest one stand for no infinity. -/
theorem isInf_unpack_packComponents {spec : Format} {s : Sign} {e : BitVec spec.exponentBits}
    {m : BitVec spec.mantissaBitsWithoutImplicit} (h : e = -1#_ → m ≠ 0#_) :
    (UnpackedFloat.unpack spec (packComponents spec s e m)).isInf = false := by
  unfold UnpackedFloat.unpack
  simp only [unpackMantissa_packComponents, unpackExponent_packComponents]
  split
  case isTrue hmax =>
    rw [if_neg (h hmax)]
    rfl
  case isFalse =>
    split
    · split <;> rfl
    · rfl

/-- What is far below the largest exponent is packed without overflow. -/
theorem isInf_unpack_pack {most : Int} (hmost : most < 0) {x : UnpackedFloat} (hx : Within most x) :
    (UnpackedFloat.unpack Format.binary64 (UnpackedFloat.pack Format.binary64 x)).isInf = false := by
  cases x with
  | notANumber => exact isInf_unpack_packComponents fun _ => by decide
  | infinity s => exact hx.elim
  | zero s => exact isInf_unpack_packComponents fun h => absurd h (by decide)
  | finite s m e hm =>
    change e ≤ most at hx
    unfold UnpackedFloat.pack
    dsimp only
    rw [exponentBias_double]
    generalize hbiased : (e + (1023 : Nat) + (52 : Nat)).toNat = biased
    have hsmall : biased ≤ 1075 := by omega
    -- the biased exponent is too small for the largest one that its field holds, which alone stands for an infinity
    split
    case isTrue hlarge =>
      change 2 ^ 11 ≤ biased + 1 at hlarge
      omega
    case isFalse =>
      split
      · refine isInf_unpack_packComponents fun h => ?_
        have hbits : biased % 2 ^ 11 = 2 ^ 11 - 1 := congrArg BitVec.toNat h
        omega
      · exact isInf_unpack_packComponents fun h => absurd h (by decide)

/-! ### Clamping -/

/-- Less than eight in size, or no number. -/
def Small (a : Float) : Prop := Within (-50) a.toModel.unpack

/-- A small number that an interval may end with. -/
def Limit (a : Float) : Prop := Within (-50) a.toModel.unpack ∧ a.toModel.unpack.isNaN = false

instance : DecidablePred Limit := fun _ => inferInstanceAs (Decidable (_ ∧ _))

/-- What is neither below nor above numbers of some exponents has no larger exponent. -/
theorem within_of_not_lt {most : Int} {x low high : UnpackedFloat} (hlow : Within most low) (hhigh : Within most high)
    (hlow' : low.isNaN = false) (hhigh' : high.isNaN = false) (h : UnpackedFloat.lt x low = false)
    (h' : UnpackedFloat.lt high x = false) : Within most x := by
  cases x with
  | notANumber => trivial
  | zero s => trivial
  | infinity s =>
    cases s with
    | negative =>
      cases low with
      | notANumber => exact nomatch hlow'
      | infinity s => exact hlow
      | zero s => exact nomatch h
      | finite s m e hm => exact nomatch h
    | positive =>
      cases high with
      | notANumber => exact nomatch hhigh'
      | infinity s => exact hhigh
      | zero s => exact nomatch h'
      | finite s m e hm => exact nomatch h'
  | finite s m e hm =>
    -- of numbers with one sign the one with the larger exponent is larger in size
    have hcompare {m' : Nat} {e' : Int} (hless : e' < e) : ((compare e e').then (compare m m')) = .gt ∧
        ((compare e' e).then (compare m' m)) = .lt := by
      rw [Int.compare_eq_gt.mpr hless, Int.compare_eq_lt.mpr hless]
      exact ⟨rfl, rfl⟩
    cases s with
    | negative =>
      cases low with
      | notANumber => exact nomatch hlow'
      | infinity s => exact hlow.elim
      | zero s => exact nomatch h
      | finite s m' e' hm' =>
        cases s with
        | positive => exact nomatch h
        | negative =>
          refine Int.le_trans (Int.not_lt.mp fun hless => ?_) hlow
          change (some ((compare e e').then (compare m m')).swap == some .lt) = false at h
          rw [(hcompare hless).1] at h
          exact nomatch h
    | positive =>
      cases high with
      | notANumber => exact nomatch hhigh'
      | infinity s => exact hhigh.elim
      | zero s => exact nomatch h'
      | finite s m' e' hm' =>
        cases s with
        | negative => exact nomatch h'
        | positive =>
          refine Int.le_trans (Int.not_lt.mp fun hless => ?_) hhigh
          change (some ((compare e' e).then (compare m' m)) == some .lt) = false at h'
          rw [(hcompare hless).2] at h'
          exact nomatch h'

/-! ### Doubles -/

section Doubles

variable {a b low high : Float}

theorem small_of_not_lt (hlow : Limit low) (hhigh : Limit high) (h : ¬a < low) (h' : ¬high < a) : Small a := by
  rw [lt_iff, Bool.not_eq_true] at h h'
  exact within_of_not_lt hlow.1 hhigh.1 hlow.2 hhigh.2 h h'

/-- A number that is clamped between small ones is small. -/
theorem small_clamp (a : Float) (hlow : Limit low) (hhigh : Limit high) : Small (Scalar.clamp a low high) := by
  unfold Scalar.clamp Scalar.min Scalar.max
  by_cases hbelow : a < low
  · rw [if_pos hbelow]
    split
    · exact hhigh.1
    · exact hlow.1
  · rw [if_neg hbelow]
    by_cases habove : high < a
    · rw [if_pos habove]
      exact hhigh.1
    · rw [if_neg habove]
      exact small_of_not_lt hlow hhigh hbelow habove

/-- Angles are small. -/
theorem small_arctan (y x : Float) : Small (Scalar.arctan y x) := by
  change Small (Number.arctan y x)
  unfold Number.arctan
  dsimp only
  split
  case isTrue => exact trivial
  case isFalse hinside =>
    rw [Bool.or_eq_true, decide_eq_true_eq, decide_eq_true_eq, not_or] at hinside
    exact small_of_not_lt (by decide +kernel) (by decide +kernel) hinside.1 hinside.2

/-- Sums of small numbers are not infinite. -/
theorem isInfinite_add (ha : Small a) (hb : Small b) : Scalar.isInfinite (a + b) = false :=
  isInf_unpack_pack (by decide) (within_add ha hb (fits_unpack a.toModel.toBits.toBitVec)
    (fits_unpack b.toModel.toBits.toBitVec))

/-- The angle of a constraint is small, wherever its nodes are. -/
theorem small_angle (shape : Shape) (node : NodeId → Node Float) : Small (shape.angle node) := by
  unfold Shape.angle
  cases shape with
  | pair first second direction => exact small_arctan _ _
  | triple apex ray arm => exact small_arctan _ _

/-- A gap that is kept between zero and half a turn does not become infinite when an angle is added. -/
theorem isInfinite_ahead (gap : Float) {w : Float} (hw : Small w) :
    Scalar.isInfinite (Scalar.clamp gap 0 Scalar.pi + w) = false :=
  isInfinite_add (small_clamp gap (by decide +kernel) (by decide +kernel)) hw

end Doubles

end Linkage.Number
