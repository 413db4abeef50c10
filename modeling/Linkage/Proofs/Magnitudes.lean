import Linkage.Mechanism.Sweep
import Linkage.Proofs.Bounds

/-!
# Linkage.Proofs.Magnitudes — quotients of integers do not overflow

A positive double with all of its 53 digits is known up to a factor of two by the exponent of its unit (`Sized`).  Rounding,
multiplying and dividing move these exponents by a few places (`sized_round`, `sized_mul`, `sized_div`), and integers have
the exponents that their number of digits tells.  So the driven angles of a sweep are finite unless it has more steps than
doubles can count (`exists_stepAngle`).
-/

namespace Linkage

namespace Number

open Float.Model (Format UnpackedFloat totalExponent)
open Float.Model.UnpackedFloat

/-- Positive and with 53 digits, in a unit whose exponent lies in an interval. -/
def Sized (low high : Int) (x : UnpackedFloat) : Prop :=
  ∃ m e hm, x = .finite .positive m e hm ∧ m.log2 = 52 ∧ low ≤ e ∧ e ≤ high

variable {low high low' high' : Int} {x y : UnpackedFloat}

theorem sized_mono (h : Sized low high x) (hlow : low' ≤ low) (hhigh : high ≤ high') : Sized low' high' x := by
  obtain ⟨m, e, hm, hx, hlog, he, he'⟩ := h
  exact ⟨m, e, hm, hx, hlog, Int.le_trans hlow he, Int.le_trans he' hhigh⟩

/-! ### Rounding -/

theorem targetExponent_eq {m : Nat} {e : Int} (h : -1022 ≤ m.log2 + e) :
    Format.binary64.targetExponent (totalExponent m e) = m.log2 + e - 52 := by
  rw [targetExponent_double]
  unfold totalExponent
  omega

/-- A significand of enough digits is rounded to 53 of them, or to the next power of two. -/
theorem sized_round {m : Nat} {e : Int} (accuracy : Accuracy) (hm : 52 ≤ m.log2) (he : -1022 ≤ m.log2 + e) :
    Sized (m.log2 + e - 52) (m.log2 + e - 51) (roundWithAccuracy Format.binary64 .positive m e accuracy) := by
  have hpos : 0 < m := Nat.pos_of_ne_zero (by rintro rfl; simp at hm)
  obtain ⟨hlow, hhigh⟩ := bounds_of_log2 hpos rfl
  obtain ⟨k, hk⟩ := Nat.exists_eq_add_of_le hm
  rw [hk, Nat.pow_add] at hlow
  rw [hk, Nat.add_right_comm, Nat.pow_add] at hhigh
  have hshifted : 2 ^ 52 ≤ m / 2 ^ k ∧ m / 2 ^ k < 2 ^ 53 :=
    ⟨(Nat.le_div_iff_mul_le (Nat.two_pow_pos k)).mpr hlow, (Nat.div_lt_iff_lt_mul (Nat.two_pow_pos k)).mpr hhigh⟩
  unfold roundWithAccuracy shiftToTargetExponent shiftToExponent
  dsimp only
  rw [targetExponent_eq he, show ((m.log2 + e - 52) - e).toNat = k by omega]
  have hkept := mantissa_le_rounded (ExtendedMantissa.ofMantissaAndAccuracy m accuracy >>> k)
  have hcarried := rounded_le_succ (ExtendedMantissa.ofMantissaAndAccuracy m accuracy >>> k)
  rw [mantissa_shiftRight, mantissa_of_accuracy] at hkept hcarried
  generalize ExtendedMantissa.roundedMantissa _ = r at hkept hcarried ⊢
  simp only [mantissa_shiftRight, mantissa_of_accuracy]
  by_cases hcarry : r = 2 ^ 53
  · -- the carry has made one digit too many, which is a zero
    subst hcarry
    have hdigits : (2 ^ 53 : Nat).log2 = 53 := by decide
    have htarget : (Format.binary64.targetExponent (totalExponent (2 ^ 53) (e + k)) - (e + k)).toNat = 1 := by
      rw [targetExponent_eq (by omega)]
      omega
    rw [htarget]
    exact ⟨2 ^ 52, e + k + 1, by decide, rfl, by decide, by omega, by omega⟩
  · have hdigits : r.log2 = 52 := log2_of_bounds (by omega) (by omega)
    have htarget : (Format.binary64.targetExponent (totalExponent r (e + k)) - (e + k)).toNat = 0 := by
      rw [targetExponent_eq (by omega)]
      omega
    rw [htarget]
    simp only [Nat.pow_zero, Nat.div_one]
    rw [dif_neg (by omega)]
    exact ⟨r, e + k, by omega, by simp, hdigits, by omega, by omega⟩

/-- A significand that is brought to 53 digits first needs none to begin with. -/
theorem sized_round_shifted {m : Nat} {e : Int} (hm : 0 < m) (he : -1022 ≤ m.log2 + e) :
    Sized (m.log2 + e - 52) (m.log2 + e - 51) (UnpackedFloat.round Format.binary64 .positive m e) := by
  unfold UnpackedFloat.round decreaseExponent
  dsimp only
  rw [targetExponent_eq he, show (e - (m.log2 + e - 52)).toNat = 52 - m.log2 by omega]
  have hdigits := log2_shiftLeft hm (52 - m.log2)
  have hround := sized_round (m := m <<< (52 - m.log2)) (e := e - (52 - m.log2 : Nat)) .exact (by omega) (by omega)
  exact sized_mono hround (by omega) (by omega)

/-! ### Multiplying and dividing -/

theorem log2_mul {m n : Nat} (hm : 0 < m) (hn : 0 < n) :
    m.log2 + n.log2 ≤ (m * n).log2 ∧ (m * n).log2 ≤ m.log2 + n.log2 + 1 := by
  obtain ⟨hlow, hhigh⟩ := bounds_of_log2 hm rfl
  obtain ⟨hlow', hhigh'⟩ := bounds_of_log2 hn rfl
  have hpos : m * n ≠ 0 := Nat.ne_of_gt (Nat.mul_pos hm hn)
  refine ⟨?_, Nat.lt_succ_iff.mp ?_⟩
  · rw [Nat.le_log2 hpos, Nat.pow_add]
    exact Nat.mul_le_mul hlow hlow'
  · have hpow : 2 ^ (m.log2 + n.log2 + 1).succ = 2 ^ (m.log2 + 1) * 2 ^ (n.log2 + 1) := by
      rw [← Nat.pow_add]
      congr 1
      omega
    rw [Nat.log2_lt hpos, hpow]
    exact Nat.mul_lt_mul'' hhigh hhigh'

theorem sized_mul (hx : Sized low high x) (hy : Sized low' high' y) (hlow : -1126 ≤ low + low') :
    Sized (low + low' + 52) (high + high' + 54) (x.mul Format.binary64 y) := by
  obtain ⟨m, e, hm, rfl, hlog, he, he'⟩ := hx
  obtain ⟨m', i, hm', rfl, hlog', hi, hi'⟩ := hy
  obtain ⟨hdigits, hdigits'⟩ := log2_mul hm hm'
  have hround := sized_round (e := e + i) .exact (show 52 ≤ (m * m').log2 by omega) (by omega)
  exact sized_mono hround (by omega) (by omega)

theorem sized_div (hx : Sized low high x) (hy : Sized low' high' y) (hlow : -1021 ≤ low - high') :
    Sized (low - high' - 53) (high - low' - 51) (x.div Format.binary64 y) := by
  obtain ⟨m, e, hm, rfl, hlog, he, he'⟩ := hx
  obtain ⟨m', i, hm', rfl, hlog', hi, hi'⟩ := hy
  obtain ⟨hleast, hless⟩ := bounds_of_log2 hm hlog
  obtain ⟨hleast', hless'⟩ := bounds_of_log2 hm' hlog'
  -- the quotient is worked out with 53 digits more, which suffices for significands of 53 digits each
  have hcore : divCore Format.binary64 m e m' i =
      ((m <<< 53) / m', e - i - 53, accuracyOfFraction ((m <<< 53) % m') m') := by
    have htarget : min (e - i) (Format.binary64.targetExponent (totalExponent m e - totalExponent m' i)) = e - i - 53 := by
      rw [targetExponent_double]
      unfold totalExponent
      omega
    unfold divCore
    dsimp only
    rw [htarget, show (e - i - (e - i - 53)).toNat = 53 by omega]
  have hquotient : 2 ^ 52 ≤ (m <<< 53) / m' := by
    rw [Nat.le_div_iff_mul_le hm', Nat.shiftLeft_eq]
    omega
  have hquotient' : (m <<< 53) / m' < 2 ^ 54 := by
    rw [Nat.div_lt_iff_lt_mul hm', Nat.shiftLeft_eq]
    omega
  have hdiv : UnpackedFloat.div Format.binary64 (.finite .positive m e hm) (.finite .positive m' i hm') =
      (fun p => roundWithAccuracy Format.binary64 .positive p.1 p.2.1 p.2.2) (divCore Format.binary64 m e m' i) := rfl
  rw [hdiv, hcore]
  dsimp only
  generalize (m <<< 53) / m' = q at hquotient hquotient' ⊢
  have hdigits : 52 ≤ q.log2 := (Nat.le_log2 (by omega)).mpr hquotient
  have hdigits' : q.log2 < 54 := (Nat.log2_lt (by omega)).mpr hquotient'
  have hround := sized_round (e := e - i - 53) (accuracyOfFraction ((m <<< 53) % m') m') hdigits (by omega)
  exact sized_mono hround (by omega) (by omega)

/-! ### Packing -/

/-- What is neither too large nor too small is packed and unpacked exactly. -/
theorem unpack_pack (h : Sized low high x) (hlow : -1074 ≤ low) (hhigh : high ≤ 971) :
    UnpackedFloat.unpack Format.binary64 (UnpackedFloat.pack Format.binary64 x) = x := by
  obtain ⟨m, e, hm, rfl, hlog, he, he'⟩ := h
  obtain ⟨hleast, hless⟩ := bounds_of_log2 hm hlog
  have hsign : Sign.ofBitVec Sign.positive.toBitVec = .positive := rfl
  have hsignificand : (1#1 ++ BitVec.ofNat 52 m).toNat = m := by
    simp only [BitVec.toNat_append, BitVec.toNat_ofNat, Nat.shiftLeft_eq]
    change 2 ^ 52 ||| (m % 2 ^ 52) = m
    rw [Nat.or_comm, Nat.or_two_pow_eq_add_of_lt (Nat.mod_lt m (Nat.two_pow_pos 52))]
    omega
  unfold UnpackedFloat.pack
  dsimp only
  rw [exponentBias_double, hlog]
  generalize hbiased : (e + (1023 : Nat) + (52 : Nat)).toNat = biased
  have hmod : biased % 2 ^ 11 = biased := Nat.mod_eq_of_lt (by omega)
  split
  case isTrue hlarge =>
    change 2 ^ 11 ≤ biased + 1 at hlarge
    omega
  case isFalse =>
    rw [if_pos (show 52 + 1 = Format.binary64.mantissaBits from rfl)]
    unfold UnpackedFloat.unpack
    simp only [unpackMantissa_packComponents, unpackExponent_packComponents, unpackSign_packComponents, hsign]
    rw [if_neg fun h => ?_, if_neg fun h => ?_]
    · congr 1
      change ((biased % 2 ^ 11 : Nat) : Int) - (1023 + 52) = e
      omega
    · have hbits : biased % 2 ^ 11 = 0 := congrArg BitVec.toNat h
      omega
    · have hbits : biased % 2 ^ 11 = 2 ^ 11 - 1 := congrArg BitVec.toNat h
      omega

/-! ### Doubles -/

section Doubles

variable {a b : Float}

theorem sized_mul_double (ha : Sized low high a.toModel.unpack) (hb : Sized low' high' b.toModel.unpack)
    (hlow : -1126 ≤ low + low') (hhigh : high + high' ≤ 917) :
    Sized (low + low' + 52) (high + high' + 54) (a * b).toModel.unpack := by
  have hmul := sized_mul ha hb hlow
  have hunpack : (a * b).toModel.unpack = a.toModel.unpack.mul Format.binary64 b.toModel.unpack :=
    unpack_pack hmul (by omega) (by omega)
  rw [hunpack]
  exact hmul

theorem sized_div_double (ha : Sized low high a.toModel.unpack) (hb : Sized low' high' b.toModel.unpack)
    (hlow : -1021 ≤ low - high') (hhigh : high - low' ≤ 1022) :
    Sized (low - high' - 53) (high - low' - 51) (a / b).toModel.unpack := by
  have hdiv := sized_div ha hb hlow
  have hunpack : (a / b).toModel.unpack = a.toModel.unpack.div Format.binary64 b.toModel.unpack :=
    unpack_pack hdiv (by omega) (by omega)
  rw [hunpack]
  exact hdiv

/-- The double nearest to an integer has the exponent that the number of its digits tells. -/
theorem sized_ofScientific {n : Nat} (hn : 0 < n) (hless : n.log2 < 1000) :
    Sized (n.log2 - 52) (n.log2 - 49) (Float.ofScientific n false 0).toModel.unpack := by
  have hone : Sized (-52) (-52) (Float.exactlyRepresentablePowersOfTen[0]).toModel.unpack :=
    ⟨2 ^ 52, -52, by decide, rfl, by decide, by decide, by decide⟩
  unfold Float.ofScientific
  -- small numbers are converted as machine words and multiplied by one, and large ones are rounded at once
  split
  case isTrue hsmall =>
    have hword : n.toUInt64.toNat = n := UInt64.toNat_ofNat_of_lt' (Nat.lt_trans hsmall.1 (by decide))
    have hround := sized_round_shifted (e := 0) hn (by omega)
    have hunpack : n.toUInt64.toFloat.toModel.unpack = UnpackedFloat.round Format.binary64 .positive n 0 := by
      have hconverted : UnpackedFloat.ofUInt64 Format.binary64 n.toUInt64 =
          UnpackedFloat.round Format.binary64 .positive n 0 := by
        unfold ofUInt64 ofNat ofInt UnpackedFloat.normalize
        rw [hword, Int.compare_eq_gt.mpr (by omega)]
        rfl
      refine Eq.trans ?_ (unpack_pack hround (by omega) (by omega))
      rw [← hconverted]
      rfl
    rw [← hunpack] at hround
    exact sized_mono (sized_mul_double hround hone (by omega) (by omega)) (by omega) (by omega)
  case isFalse =>
    -- the 53 digits that are added in front change neither the value nor what it is rounded to
    have hdigits := log2_shiftLeft hn 53
    have hround := sized_round (m := n <<< 53) (e := -53) .exact (by omega) (by omega)
    have hmade : UnpackedFloat.ofScientific Format.binary64 n 0 =
        roundWithAccuracy Format.binary64 .positive (n <<< 53) (-53) .exact := by
      have hlarge : ¬(0 : Int) > 2 ^ Format.binary64.exponentBits := by decide
      have hsmall : ¬(0 : Int) < -(2 ^ Format.binary64.exponentBits + (n.log2 : Int)) := by
        have hbits : (2 : Int) ^ Format.binary64.exponentBits = 2048 := by decide
        omega
      unfold UnpackedFloat.ofScientific
      rw [dif_neg (Nat.ne_of_gt hn), if_neg hlarge, if_neg hsmall, if_pos (Int.le_refl 0)]
      change roundWithAccuracy Format.binary64 .positive ((n <<< 53) * 1) (-53) .exact = _
      rw [Nat.mul_one]
    have hunpack : (Float.Model.ofScientific n 0).unpack =
        roundWithAccuracy Format.binary64 .positive (n <<< 53) (-53) .exact := by
      refine Eq.trans ?_ (unpack_pack hround (by omega) (by omega))
      rw [← hmade]
      rfl
    rw [← hunpack] at hround
    exact sized_mono hround (by omega) (by omega)

theorem isFinite_of_sized (h : Sized low high a.toModel.unpack) : a.isFinite = true := by
  obtain ⟨m, e, hm, hunpack, -⟩ := h
  unfold Float.isFinite Float.Model.isFinite
  rw [hunpack]
  rfl

theorem not_isInfinite_of_sized (h : Sized low high a.toModel.unpack) : Scalar.isInfinite a = false := by
  obtain ⟨m, e, hm, hunpack, -⟩ := h
  change a.toModel.unpack.isInf = false
  rw [hunpack]
  rfl

theorem not_isZero_of_sized (h : Sized low high a.toModel.unpack) : Scalar.isZero a = false := by
  obtain ⟨m, e, hm, hunpack, -⟩ := h
  refine Scalar.Signs.not_isZero_of_pos (pos_iff.mpr ?_)
  rw [hunpack]
  exact .finite m e hm

/-- Ten digits in base two are no more than four in base ten. -/
theorem length_toDigits_le {n : Nat} (hn : 0 < n) : (Nat.toDigits 10 n).length ≤ 4 * (n.log2 / 10 + 1) := by
  rw [Nat.length_toDigits_le_iff (by decide) (by omega)]
  obtain ⟨-, hless⟩ := bounds_of_log2 hn rfl
  calc n < 2 ^ (n.log2 + 1) := hless
    _ ≤ 2 ^ (10 * (n.log2 / 10 + 1)) := Nat.pow_le_pow_right (by decide) (by omega)
    _ = (2 ^ 10) ^ (n.log2 / 10 + 1) := Nat.pow_mul ..
    _ ≤ (10 ^ 4) ^ (n.log2 / 10 + 1) := Nat.pow_le_pow_left (by decide) _
    _ = 10 ^ (4 * (n.log2 / 10 + 1)) := (Nat.pow_mul ..).symm

/-- Integers of up to a thousand digits in base two are counted in doubles. -/
theorem exists_ofInt {n : Nat} (hn : 0 < n) (hlog : n.log2 < 1000) :
    ∃ x : Float, Scalar.ofInt (n : Int) = .ok x ∧ Sized (n.log2 - 52) (n.log2 - 49) x.toModel.unpack := by
  have hdigits := length_toDigits_le hn
  have hsized := sized_ofScientific hn hlog
  have hdecimal : Number.ofDecimal n 0 = Float.ofScientific n false 0 := by
    unfold Number.ofDecimal
    dsimp only
    rw [if_neg (Nat.ne_of_gt hn), if_neg (by omega), if_neg (by omega), if_pos (Int.le_refl 0)]
    rfl
  refine ⟨_, ?_, hsized⟩
  have hofInt : Number.ofInt? n = some (Float.ofScientific n false 0) := by
    unfold Number.ofInt?
    rw [Int.natAbs_natCast, hdecimal]
    dsimp only
    rw [if_pos (isFinite_of_sized hsized), if_neg (by omega)]
  have hscalar : Scalar.ofInt? (n : Int) = some (Float.ofScientific n false 0) := hofInt
  unfold Scalar.ofInt
  rw [hscalar]

end Doubles

end Number

namespace Mechanism

/-- The driven angles of one revolution are finite if doubles can count its steps. -/
theorem exists_stepAngle {steps : Int} {i k : Nat} (hi : 1 ≤ i) (hle : i ≤ steps) (hsteps : steps < 2 ^ k)
    (hk : k ≤ 1000) : ∃ phi : Float, stepAngle steps 1 i = .ok phi ∧ Scalar.isInfinite phi = false := by
  obtain ⟨n, rfl⟩ := Int.eq_ofNat_of_zero_le (show 0 ≤ steps by omega)
  have hin : i ≤ n := Int.ofNat_le.mp hle
  have hn : 1 ≤ n := Nat.le_trans hi hin
  have hless : n < 2 ^ k := by exact_mod_cast hsteps
  have hlog : n.log2 < k := (Nat.log2_lt (Nat.ne_of_gt hn)).mpr hless
  have hlog' : i.log2 ≤ n.log2 := (Nat.le_log2 (Nat.ne_of_gt hn)).mpr (Nat.le_trans (Nat.log2_self_le (Nat.ne_of_gt hi)) hin)
  obtain ⟨x, hx, hxsized⟩ := Number.exists_ofInt hi (by omega)
  obtain ⟨y, hy, hysized⟩ := Number.exists_ofInt hn (by omega)
  have hturn : Number.Sized (-50) (-50) (Scalar.turn * (1 : Float)).toModel.unpack :=
    ⟨7074237752028440, -50, by decide, rfl, by decide, by decide, by decide⟩
  have hproduct := Number.sized_mul_double hturn hxsized (by omega) (by omega)
  have hquotient := Number.sized_div_double hproduct hysized (by omega) (by omega)
  refine ⟨_, ?_, Number.not_isInfinite_of_sized hquotient⟩
  unfold stepAngle
  rw [hx, hy]
  unfold Scalar.divide
  change (if Scalar.isZero y then _ else _) = _
  rw [if_neg (Bool.eq_false_iff.mp (Number.not_isZero_of_sized hysized))]

end Mechanism

end Linkage
