import Linkage.Proofs.Projection
import Linkage.Proofs.Settled
import Mathlib.Analysis.SpecialFunctions.Trigonometric.Angle

/-!
# Linkage.Proofs.Deviation — the angle that is reported and the angle that is corrected

The residual of a wanted angle is the deviation from it, wrapped into one turn (`wrap_real`).  The angle pass judges the
same pair by what it takes from the vector between the ends, and for a pair that keeps to one side of its target line it
takes nothing from vectors on one ray only (`correction_eq_zero_iff`).  For a pair that settles along its target that ray
is the one with the wanted angle, and its residual is zero.  For a pair that settles against it, it is the opposite ray,
where the residual is half a turn (`residual_agrees`).
-/

namespace Linkage

/-! ### Wrapped angles -/

namespace Scalar

theorem turn_real : (turn : ℝ) = 2 * Real.pi := congrArg (· * Real.pi) one_add_one_eq_two

theorem floorMod_real (x y : ℝ) : Scalar.floorMod x y = x - y * ⌊x / y⌋ := rfl

/-- The remainder of an angle lies within one turn from zero. -/
theorem floorMod_turn_mem (x : ℝ) : Scalar.floorMod x turn ∈ Set.Ico 0 (2 * Real.pi) := by
  have hpos : 0 < 2 * Real.pi := Real.two_pi_pos
  have hfract : Scalar.floorMod x turn = Int.fract (x / (2 * Real.pi)) * (2 * Real.pi) := by
    rw [floorMod_real, turn_real, Int.fract, sub_mul, div_mul_cancel₀ _ hpos.ne', mul_comm (2 * Real.pi)]
  rw [hfract]
  exact ⟨mul_nonneg (Int.fract_nonneg _) hpos.le, mul_lt_of_lt_one_left hpos (Int.fract_lt_one _)⟩

theorem wrap_mem (x : ℝ) : Scalar.wrap x ∈ Set.Ioc (-Real.pi) Real.pi := by
  obtain ⟨hlow, hhigh⟩ := floorMod_turn_mem x
  have hpi := Real.pi_pos
  unfold wrap
  dsimp only
  rw [turn_real] at hlow hhigh ⊢
  split
  case isTrue h =>
    have h : Real.pi < Scalar.floorMod x (2 * Real.pi) := h
    exact ⟨by linarith, by linarith⟩
  case isFalse h =>
    have h : Scalar.floorMod x (2 * Real.pi) ≤ Real.pi := not_lt.mp h
    exact ⟨by linarith, h⟩

/-- Wrapping takes whole turns from an angle. -/
theorem coe_wrap (x : ℝ) : ((Scalar.wrap x : ℝ) : Real.Angle) = x := by
  refine Real.Angle.angle_eq_iff_two_pi_dvd_sub.mpr ?_
  unfold wrap
  dsimp only
  rw [floorMod_real, turn_real]
  split
  · refine ⟨-⌊x / (2 * Real.pi)⌋ - 1, ?_⟩
    push_cast
    ring
  · refine ⟨-⌊x / (2 * Real.pi)⌋, ?_⟩
    push_cast
    ring

/-- A wrapped angle is the one in `(-π, π]` that differs by whole turns. -/
theorem wrap_real (x : ℝ) : Scalar.wrap x = (x : Real.Angle).toReal := by
  rw [← coe_wrap x]
  exact (Real.Angle.toReal_coe_eq_self_iff.mpr (wrap_mem x)).symm

theorem wrap_eq_zero_iff {x : ℝ} : Scalar.wrap x = 0 ↔ Real.sin x = 0 ∧ 0 < Real.cos x := by
  rw [wrap_real, Real.Angle.toReal_eq_zero_iff, ← Real.Angle.sin_coe, ← Real.Angle.cos_coe, Real.Angle.sin_eq_zero_iff]
  constructor
  · intro h
    rw [h, Real.Angle.cos_zero]
    exact ⟨Or.inl rfl, zero_lt_one⟩
  · rintro ⟨h | h, hcos⟩
    · exact h
    · rw [h, Real.Angle.cos_coe_pi] at hcos
      linarith

theorem wrap_eq_pi_iff {x : ℝ} : Scalar.wrap x = Real.pi ↔ Real.sin x = 0 ∧ Real.cos x < 0 := by
  rw [wrap_real, Real.Angle.toReal_eq_pi_iff, ← Real.Angle.sin_coe, ← Real.Angle.cos_coe, Real.Angle.sin_eq_zero_iff]
  constructor
  · intro h
    rw [h, Real.Angle.cos_coe_pi]
    exact ⟨Or.inr rfl, neg_lt_zero.mpr zero_lt_one⟩
  · rintro ⟨h | h, hcos⟩
    · rw [h, Real.Angle.cos_zero] at hcos
      linarith
    · exact h

end Scalar

/-! ### Corrections of nothing -/

section Correction

variable {direction : Direction} {v : Vec ℝ} {w : ℝ}

/-- There is nothing to take from a vector that is its own projection. -/
theorem correction_eq_zero_iff_projection :
    direction.correction v ⟨Real.cos w, Real.sin w⟩ = ⟨0, 0⟩ ↔ direction.projection v.toComplex w = v.toComplex := by
  rw [← sub_correction_eq_projection, sub_eq_self]
  generalize direction.correction v ⟨Real.cos w, Real.sin w⟩ = d
  constructor
  · rintro rfl
    rfl
  · intro h
    exact (Vec.mk.injEq ..).mpr ⟨congrArg Complex.re h, congrArg Complex.im h⟩

/-- So it is on the target line and does not point to the forbidden side. -/
theorem correction_eq_zero_iff_side (hv : v.toComplex ≠ 0) :
    direction.correction v ⟨Real.cos w, Real.sin w⟩ = ⟨0, 0⟩ ↔
      offset v.toComplex w = 0 ∧ (direction = .either ∨ 0 < direction.sign * advance v.toComplex w) := by
  constructor
  · intro h
    have hprojection := (correction_eq_zero_iff_projection.mp h).symm
    by_cases hside : direction = .either ∨ 0 < direction.sign * advance v.toComplex w
    · refine ⟨?_, hside⟩
      rw [hprojection, Direction.projection, if_pos hside, offset_mul_bearing]
    · -- a vector that is its own mirror image is zero
      rw [Direction.projection, if_neg hside] at hprojection
      have hadvance : advance v.toComplex w = -advance v.toComplex w := by
        conv_lhs => rw [hprojection, advance_neg, advance_self]
      have hzero : advance v.toComplex w = 0 := by linarith
      rw [hzero, Complex.ofReal_zero, zero_mul, neg_zero] at hprojection
      exact absurd hprojection hv
  · rintro ⟨hline, hside⟩
    exact correction_eq_zero hside hline

/-- For a pair that keeps to one side, it is the residual that says so: it is zero then if the pair settles along its
target, and half a turn if it settles against it. -/
theorem correction_eq_zero_iff (hdirection : direction ≠ .either) (hv : v.toComplex ≠ 0) :
    direction.correction v ⟨Real.cos w, Real.sin w⟩ = ⟨0, 0⟩ ↔
      Scalar.wrap (v.angle - w) = if direction = .along then 0 else Real.pi := by
  have hangle : v.angle = Complex.arg v.toComplex := rfl
  have hpos : 0 < ‖v.toComplex‖ := norm_pos_iff.mpr hv
  rw [correction_eq_zero_iff_side hv, offset_eq, advance_eq, ← hangle, mul_eq_zero, or_iff_right hpos.ne',
    or_iff_right hdirection]
  cases direction with
  | either => exact absurd rfl hdirection
  | along =>
    rw [if_pos rfl, Scalar.wrap_eq_zero_iff, Direction.sign, one_mul, mul_pos_iff_of_pos_left hpos]
  | against =>
    rw [if_neg (by decide), Scalar.wrap_eq_pi_iff, Direction.sign, neg_one_mul, ← mul_neg, mul_pos_iff_of_pos_left hpos,
      neg_pos]

end Correction

namespace Act

open Assembly (Corrected)

/-! ### Residuals -/

/-- A pair has the residual of a fixed angle after those of its length, whatever reading that has done. -/
theorem answer_residualsOf_fixed {st : Session ℝ} {c : ConstraintId} {w : ℝ}
    (hangle : (st.assembly.constraint c).angleTarget = some (.fixed w)) : (residualsOf c).answer st =
      (· ++ [⟨(st.assembly.constraint c).id, .angle, Scalar.wrap (st.assembly.angle c - w)⟩]) <$>
        (lengthResidual c).answer st := by
  cases hlength : (lengthResidual c).answer st with
  | error fault => exact answer_bind_error hlength
  | ok ofLength =>
    -- measuring the length moves no node, so that the angle is still the one from before
    have hread : Corrected [] st.assembly ((lengthResidual c).after st).assembly :=
      (keeps_lengthResidual c st.assembly).at_session
    have hnode : ((lengthResidual c).after st).assembly.node = st.assembly.node :=
      funext fun n => hread.outside n List.not_mem_nil
    have hown : ((lengthResidual c).after st).assembly.angle c = st.assembly.angle c := by
      unfold Assembly.angle
      rw [hread.constraint, hnode]
    refine (answer_bind_ok hlength).trans (answer_bind_pure.trans ?_)
    have hresidual : Runs (angleResidual c) ((lengthResidual c).after st).assembly fun r _ =>
        r = .ok [⟨(st.assembly.constraint c).id, .angle, Scalar.wrap (st.assembly.angle c - w)⟩] := by
      have htarget : (((lengthResidual c).after st).assembly.constraint c).angleTarget = (some w).map .fixed := by
        rw [hread.constraint, hangle]
        rfl
      refine runs_read (runs_bind ((runs_targetAngle_fixed htarget).mono ?_))
      rintro _ _ ⟨rfl, rfl⟩
      rw [then_ok, ← hown, ← hread.constraint]
      exact runs_bind_pure (runs_ownAngle rfl)
    rw [hresidual.at_session]
    rfl

/-! ### Turns -/

/-- A pair is turned as its angle pass does it, when its wanted angle is fixed. -/
theorem runs_turnOne_fixed {a : Assembly ℝ} {c : ConstraintId} {first second : NodeId} {direction : Direction} {w : ℝ}
    {met : Bool} {e e' : Ends ℝ} (hshape : (a.constraint c).shape = .pair first second direction)
    (hangle : (a.constraint c).angleTarget = some (.fixed w)) (he : e = ⟨a.node first, a.node second⟩)
    (hpass : anglePass (a.configOf c) direction w e = .ok met e') :
    Runs (turnOne c) a fun r b => r = .ok met ∧ b.node = e'.put first second a.node := by
  have htarget : (a.constraint c).angleTarget = (some w).map .fixed := hangle
  rw [he] at hpass
  exact runs_turnOne_toward hshape (runs_targetAngle_fixed_node htarget) hpass

/-- Turning moves the ends of a pair exactly if its angle pass has something to take from the vector between them. -/
theorem turnOne_still_iff {st : Session ℝ} {c : ConstraintId} {first second : NodeId} {direction : Direction} {w : ℝ}
    {cfg : Config ℝ} {e : Ends ℝ} (hshape : (st.assembly.constraint c).shape = .pair first second direction)
    (hne : first ≠ second) (hangle : (st.assembly.constraint c).angleTarget = some (.fixed w))
    (hcfg : cfg = st.assembly.configOf c) (he : e = ⟨st.assembly.node first, st.assembly.node second⟩)
    (hvalid : cfg.Valid) (hmobile : e.Mobile) (hwithin : e.vector.length ≤ cfg.reach) :
    ((turnOne c).answer st = .ok true ∧
        ∀ n, (((turnOne c).after st).assembly.node n).place = (st.assembly.node n).place) ↔
      direction.correction e.vector ⟨Real.cos w, Real.sin w⟩ = ⟨0, 0⟩ := by
  obtain ⟨-, htolerance, hreach⟩ := hvalid
  rw [Vec.length_eq_norm] at hwithin
  constructor
  -- what turning does to the vector is known: it is projected, and a vector that is kept is its own projection
  · rintro ⟨-, hstill⟩
    obtain ⟨met, e', hpass⟩ : ∃ met e', anglePass cfg direction w e = .ok met e' :=
      anglePass_succeeds_of_shares hreach hmobile.shares_eq rfl
    obtain ⟨hprojected, -⟩ := (turns_of_anglePass hpass).projected hmobile htolerance hreach
    have hnode := (runs_turnOne_fixed hshape hangle he (by rwa [← hcfg])).at_session.2
    have hkept : e'.vector.toComplex = e.vector.toComplex := by
      rw [he]
      refine Ends.vector_of_place ?_ ?_
      · rw [← hstill, hnode, Ends.put_first hne]
      · rw [← hstill, hnode, Ends.put_second]
    rw [correction_eq_zero_iff_projection]
    exact (hprojected.near ((abs_advance_le _ w).trans hwithin)).symm.trans hkept
  · intro hnothing
    have hpass := anglePass_of_uncorrected hmobile.shares_eq hnothing hwithin htolerance
    obtain ⟨hanswer, hnode⟩ := (runs_turnOne_fixed hshape hangle he (by rwa [← hcfg])).at_session
    refine ⟨hanswer, fun n => ?_⟩
    rw [hnode, he]
    exact Ends.place_put (Node.place_addBoost _) (Node.place_addBoost _) n

/-- In exact arithmetic, for a pair that keeps to one side of its target line, with a fixed angle and its ends apart, within
reach: it has one residual of that angle, and the angle pass has nothing to take from the vector between its ends exactly
if that residual is zero, for a pair that settles along its target, or half a turn, for one that settles against it.  If
its ends can be moved, that is when turning it answers that it was met and moves nothing. -/
theorem residual_agrees (st : Session ℝ) (c : ConstraintId) (first second : NodeId) (direction : Direction)
    (hshape : (st.assembly.constraint c).shape = .pair first second direction) (hdirection : direction ≠ .either) (w : ℝ)
    (hangle : (st.assembly.constraint c).angleTarget = some (.fixed w)) (cfg : Config ℝ)
    (hcfg : cfg = st.assembly.configOf c) (e : Ends ℝ) (he : e = ⟨st.assembly.node first, st.assembly.node second⟩)
    (hapart : e.first.place ≠ e.second.place) (hwithin : e.vector.length ≤ cfg.reach) (met : ℝ)
    (hmet : met = if direction = .along then 0 else Real.pi) : ∃ residual,
      (residualsOf c).answer st = (· ++ [⟨(st.assembly.constraint c).id, .angle, residual⟩]) <$>
        (lengthResidual c).answer st ∧
      (direction.correction e.vector ⟨Real.cos w, Real.sin w⟩ = ⟨0, 0⟩ ↔ residual = met) ∧
      (e.Mobile → cfg.Valid → (((turnOne c).answer st = .ok true ∧
        ∀ n, (((turnOne c).after st).assembly.node n).place = (st.assembly.node n).place) ↔ residual = met)) := by
  have hvector : e.vector.toComplex ≠ 0 := by
    unfold Ends.vector
    rw [Node.toComplex_vectorTo]
    exact sub_ne_zero.mpr hapart.symm
  have hne : first ≠ second := by
    rintro rfl
    rw [he] at hapart
    exact hapart rfl
  have hown : st.assembly.angle c = e.vector.angle := by
    unfold Assembly.angle
    rw [hshape, he]
    rfl
  have hiff := correction_eq_zero_iff (w := w) hdirection hvector
  rw [← hmet, ← hown] at hiff
  refine ⟨_, answer_residualsOf_fixed hangle, hiff, fun hmobile hvalid => ?_⟩
  rw [← hiff]
  exact turnOne_still_iff hshape hne hangle hcfg he hvalid hmobile hwithin

/-- A bar that lies against its wanted angle, as it should. -/
noncomputable def opposedBar : Session ℝ :=
  run [.newConfig ⟨.int 1, 1, 1⟩, .newSystem (some 0), .node 0 0 0 { base := some true, mass := some none },
    .node 0 (-1) 0 { mass := some none },
    .pair 0 0 1 { angle := some (.number (.float 0)), direction := some (.int (-1)) }]
    ⟨.empty ⟨.int 1, 1, 1⟩, .empty Level.warning⟩

theorem opposedBar_vector :
    ((opposedBar.assembly.node 0).vectorTo (opposedBar.assembly.node 1)).toComplex = -1 := by
  apply Complex.ext
  · exact sub_zero (-1)
  · exact (sub_zero 0).trans neg_zero.symm

theorem opposedBar_apart : (opposedBar.assembly.node 0).place ≠ (opposedBar.assembly.node 1).place := by
  have hvector := opposedBar_vector
  rw [Node.toComplex_vectorTo] at hvector
  intro hplace
  rw [hplace, sub_self] at hvector
  norm_num at hvector

theorem opposedBar_within : ((opposedBar.assembly.node 0).vectorTo (opposedBar.assembly.node 1)).length ≤ 1 := by
  rw [Vec.length_eq_norm, opposedBar_vector, norm_neg, norm_one]

/-- The opposed bar has one residual, and there is nothing to take from it exactly if that is half a turn. -/
theorem residual_agrees_opposed : ∃ residual, (residualsOf 0).answer opposedBar =
      (· ++ [⟨none, .angle, residual⟩]) <$> (lengthResidual 0).answer opposedBar ∧
    (Direction.against.correction ((opposedBar.assembly.node 0).vectorTo (opposedBar.assembly.node 1))
      ⟨Real.cos 0, Real.sin 0⟩ = ⟨0, 0⟩ ↔ residual = Real.pi) := by
  obtain ⟨residual, hanswer, hiff, -⟩ := residual_agrees opposedBar 0 0 1 .against rfl (by decide) 0 rfl
    ⟨.int 1, 1, 1⟩ rfl ⟨opposedBar.assembly.node 0, opposedBar.assembly.node 1⟩ rfl opposedBar_apart opposedBar_within Real.pi
    (if_neg (by decide)).symm
  exact ⟨residual, hanswer, hiff⟩

/-- A pair can be where it should be, with nothing to take from it, and report that it misses its angle. -/
theorem residual_misreports : (opposedBar.assembly.constraint 0).shape = .pair 0 1 .against ∧
    (opposedBar.assembly.constraint 0).angleTarget = some (.fixed 0) ∧
    (opposedBar.assembly.node 0).place ≠ (opposedBar.assembly.node 1).place ∧
    ((opposedBar.assembly.node 0).vectorTo (opposedBar.assembly.node 1)).length ≤ (opposedBar.assembly.configOf 0).reach ∧
    Direction.against.correction ((opposedBar.assembly.node 0).vectorTo (opposedBar.assembly.node 1))
      ⟨Real.cos 0, Real.sin 0⟩ = ⟨0, 0⟩ ∧
    (residualsOf 0).answer opposedBar = .ok [⟨none, .angle, Real.pi⟩] ∧ Real.pi ≠ 0 := by
  have hangle : opposedBar.assembly.angle 0 = Real.pi := by
    have hown : opposedBar.assembly.angle 0 =
        Complex.arg ((opposedBar.assembly.node 0).vectorTo (opposedBar.assembly.node 1)).toComplex := rfl
    rw [hown, opposedBar_vector, Complex.arg_neg_one]
  have hresidual : Scalar.wrap (opposedBar.assembly.angle 0 - 0) = Real.pi := by
    rw [hangle, sub_zero, Scalar.wrap_eq_pi_iff, Real.sin_pi, Real.cos_pi]
    exact ⟨rfl, neg_lt_zero.mpr zero_lt_one⟩
  have htarget : (opposedBar.assembly.constraint 0).angleTarget = some (.fixed 0) := rfl
  have hanswer := answer_residualsOf_fixed htarget
  rw [hresidual] at hanswer
  have hvector := opposedBar_vector.trans_ne (neg_ne_zero.mpr one_ne_zero)
  refine ⟨rfl, rfl, opposedBar_apart, opposedBar_within, ?_, hanswer, Real.pi_pos.ne'⟩
  rw [correction_eq_zero_iff (by decide) hvector, if_neg (by decide)]
  exact hresidual

end Act

end Linkage
