import Linkage.Proofs.Bars
import Linkage.Proofs.Reach

/-!
# Linkage.Proofs.Projection — what turning a pair does, exactly

In exact arithmetic the first half of a correction is one geometric operation on the vector between the ends.  The vector
is projected onto the target line, mirrored where its projection points to the side that the pair forbids
(`Direction.projection`), and cut off at the reach.  Its ends take their parts of the change in proportion to how easily
they move (`Ends.parts`), for whatever masses and boosts, and a base node takes none (`turnOne_projects`).
-/

namespace Linkage

/-! ### Projections -/

/-- A vector brought onto the line through the origin with the angle `w`: its projection, or the mirror image of that
where it does not point to the side that the direction keeps to. -/
noncomputable def Direction.projection (direction : Direction) (z : ℂ) (w : ℝ) : ℂ :=
  if direction = .either ∨ 0 < direction.sign * advance z w then advance z w * bearing w
  else -(advance z w * bearing w)

/-- How far along its line a vector that was `x` along it is projected: as far, on the side that is kept to. -/
noncomputable def Direction.side (direction : Direction) (x : ℝ) : ℝ :=
  if direction = .either ∨ 0 < direction.sign * x then x else -x

section Projection

variable {direction : Direction} {z : ℂ} {w x : ℝ}

theorem abs_side : |direction.side x| = |x| := by
  unfold Direction.side
  split
  case isTrue => rfl
  case isFalse => exact abs_neg x

theorem sign_mul_side : 0 ≤ direction.sign * direction.side x := by
  unfold Direction.side
  split
  case isTrue hside =>
    rcases hside with rfl | hside
    · exact (zero_mul x).ge
    · exact hside.le
  case isFalse hside =>
    rw [mul_neg]
    exact neg_nonneg.mpr (not_lt.mp fun h => hside (Or.inr h))

theorem side_of_kept (h : 0 ≤ direction.sign * x) : direction.side x = x := by
  by_cases hside : direction = .either ∨ 0 < direction.sign * x
  · exact if_pos hside
  · obtain ⟨hdirection, hsign⟩ := not_or.mp hside
    have hzero : direction.sign * x = 0 := le_antisymm (not_lt.mp hsign) h
    have hx : x = 0 := by
      cases direction with
      | against => exact neg_eq_zero.mp ((neg_one_mul x).symm.trans hzero)
      | either => exact absurd rfl hdirection
      | along => exact (one_mul x).symm.trans hzero
    rw [Direction.side, if_neg hside, hx, neg_zero]

theorem projection_eq_side : direction.projection z w = direction.side (advance z w) * bearing w := by
  unfold Direction.projection Direction.side
  split
  case isTrue => rfl
  case isFalse => rw [Complex.ofReal_neg, neg_mul]

theorem norm_projection : ‖direction.projection z w‖ = |advance z w| := by
  rw [projection_eq_side, norm_mul_bearing, abs_side]

/-- A projection is not on the forbidden side. -/
theorem sign_mul_advance_projection : 0 ≤ direction.sign * advance (direction.projection z w) w := by
  rw [projection_eq_side, advance_self]
  exact sign_mul_side

/-- What is taken from a vector leaves its projection. -/
theorem sub_correction_eq_projection (direction : Direction) (v : Vec ℝ) (w : ℝ) :
    v.toComplex - (direction.correction v ⟨Real.cos w, Real.sin w⟩).toComplex =
      direction.projection v.toComplex w := by
  unfold Direction.projection
  split
  case isTrue hside => exact sub_correction hside
  -- off its side a vector is mirrored first, so that twice its part along the line is taken and the rest across it
  case isFalse hside =>
    have hcorrection : direction.correction v ⟨Real.cos w, Real.sin w⟩ =
        ⟨(1 + 1) * (v.x * Real.cos w + v.y * Real.sin w) * Real.cos w -
            (-v.x * Real.sin w + v.y * Real.cos w) * Real.sin w,
          (1 + 1) * (v.x * Real.cos w + v.y * Real.sin w) * Real.sin w +
            (-v.x * Real.sin w + v.y * Real.cos w) * Real.cos w⟩ := if_neg hside
    rw [hcorrection]
    apply Complex.ext
    · rw [Complex.neg_re, Complex.re_ofReal_mul]
      simp only [Vec.toComplex, Complex.sub_re, advance, bearing]
      linear_combination -v.x * Real.sin_sq_add_cos_sq w
    · rw [Complex.neg_im, Complex.im_ofReal_mul]
      simp only [Vec.toComplex, Complex.sub_im, advance, bearing]
      linear_combination -v.y * Real.sin_sq_add_cos_sq w

end Projection

/-! ### The angle pass -/

/-- Two shifts by the same parts are one. -/
theorem Ends.shift_shift (share : ℝ × ℝ) (d d' : Vec ℝ) (e : Ends ℝ) :
    (e.shift share d).shift share d' = e.shift share ⟨d.x + d'.x, d.y + d'.y⟩ := by
  simp only [Ends.shift, Node.moveTo, mul_add, sub_sub, add_assoc]

section Passes

variable {cfg : Config ℝ} {e e' : Ends ℝ} {share : ℝ × ℝ} {pulled met : Bool}

/-- What is out of reach is cut off, and it counts if it is as much as the tolerance. -/
theorem Pulls.cut (h : Pulls cfg share e pulled e') : ∃ d : Vec ℝ, e' = e.shift share d ∧
    (e.vector.length ≤ cfg.reach → e.vector.toComplex - d.toComplex = e.vector.toComplex) ∧
    (cfg.reach < e.vector.length → e.vector.toComplex - d.toComplex =
      (cfg.reach / e.vector.length : ℝ) * e.vector.toComplex) ∧
    (0 < cfg.tolerance → (pulled = false ↔ e.vector.length < cfg.reach + cfg.tolerance)) := by
  cases h with
  | within near =>
    have hnear : e.vector.length ≤ cfg.reach := not_lt.mp near
    refine ⟨⟨0, 0⟩, (e.shift_zero share).symm, fun _ => ?_, fun far => absurd far near, fun htolerance => ?_⟩
    · exact sub_zero e.vector.toComplex
    · exact iff_of_true rfl (by linarith)
  | beyond far d along above =>
    set r := e.vector.length with hr
    obtain ⟨hne, hdx⟩ := Scalar.divide_eq_ok.mp along
    obtain ⟨-, hdy⟩ := Scalar.divide_eq_ok.mp above
    refine ⟨d, rfl, fun near => absurd far (not_lt.mpr near), fun _ => ?_, fun htolerance => ?_⟩
    · apply Complex.ext
      · rw [Complex.re_ofReal_mul]
        change e.vector.x - d.x = _ * e.vector.x
        rw [hdx]
        field_simp
        ring
      · rw [Complex.im_ofReal_mul]
        change e.vector.y - d.y = _ * e.vector.y
        rw [hdy]
        field_simp
        ring
    · have hexcess : Scalar.abs (cfg.reach - r) = r - cfg.reach := by
        rw [Scalar.abs_real, abs_sub_comm]
        exact abs_of_pos (sub_pos.mpr far)
      rw [hexcess, decide_eq_false_iff_not, not_le]
      exact sub_lt_iff_lt_add'

/-- Ends are turned onto the line with the angle `w`. -/
structure Ends.Projected (cfg : Config ℝ) (direction : Direction) (w : ℝ) (e e' : Ends ℝ) : Prop where
  /-- The vector between them is the projection of what it was, -/
  near : |advance e.vector.toComplex w| ≤ cfg.reach →
    e'.vector.toComplex = direction.projection e.vector.toComplex w
  /-- cut off where that is out of reach. -/
  far : cfg.reach < |advance e.vector.toComplex w| → e'.vector.toComplex =
    (cfg.reach / |advance e.vector.toComplex w| : ℝ) * direction.projection e.vector.toComplex w
  length_le : e'.vector.length ≤ cfg.reach
  /-- It does not point to the forbidden side. -/
  side : 0 ≤ direction.sign * advance e'.vector.toComplex w
  /-- The ends take their parts of the change, in opposite directions. -/
  first : e.first.Shifted e'.first (e.parts.1 * (e.vector.toComplex - e'.vector.toComplex))
  second : e.second.Shifted e'.second (-(e.parts.2 * (e.vector.toComplex - e'.vector.toComplex)))

/-- A vector that is a projection, cut off at the reach, is within reach and not on the forbidden side. -/
theorem projected_cut {direction : Direction} {z z' : ℂ} {w : ℝ} (hreach : 0 < cfg.reach)
    (hnear : |advance z w| ≤ cfg.reach → z' = direction.projection z w)
    (hfar : cfg.reach < |advance z w| → z' = (cfg.reach / |advance z w| : ℝ) * direction.projection z w) :
    ‖z'‖ ≤ cfg.reach ∧ 0 ≤ direction.sign * advance z' w := by
  rcases le_or_gt |advance z w| cfg.reach with hwithin | hbeyond
  · rw [hnear hwithin, norm_projection]
    exact ⟨hwithin, sign_mul_advance_projection⟩
  · have hpos : 0 < |advance z w| := hreach.trans hbeyond
    have hpart : 0 ≤ cfg.reach / |advance z w| := div_nonneg hreach.le hpos.le
    rw [hfar hbeyond, norm_mul, norm_projection, Complex.norm_real, Real.norm_of_nonneg hpart,
      div_mul_cancel₀ _ hpos.ne', advance_mul, mul_left_comm]
    exact ⟨le_refl _, mul_nonneg hpart sign_mul_advance_projection⟩

/-- Turning ends that can be moved projects the vector between them. -/
theorem Turns.projected {direction : Direction} {w : ℝ} (h : Turns cfg direction w e met e') (hmobile : e.Mobile)
    (htolerance : 0 < cfg.tolerance) (hreach : 0 < cfg.reach) : e.Projected cfg direction w e' ∧
      (met = true ↔ |(e.vector.toComplex - direction.projection e.vector.toComplex w).re| < cfg.tolerance ∧
        |(e.vector.toComplex - direction.projection e.vector.toComplex w).im| < cfg.tolerance ∧
        |advance e.vector.toComplex w| < cfg.reach + cfg.tolerance) := by
  cases h with
  | turned heading share pulled e'' towards shared pulls =>
    obtain rfl : ⟨Real.cos w, Real.sin w⟩ = heading := Except.ok.inj towards
    obtain rfl : e.parts = share := Except.ok.inj (hmobile.shares_eq.symm.trans shared)
    set d := direction.correction e.vector ⟨Real.cos w, Real.sin w⟩
    have htaken : e.vector.toComplex - d.toComplex = direction.projection e.vector.toComplex w :=
      sub_correction_eq_projection direction e.vector w
    have hvector : (e.shift e.parts d).vector.toComplex = direction.projection e.vector.toComplex w :=
      (hmobile.vector_shift d).trans htaken
    have hlength : (e.shift e.parts d).vector.length = |advance e.vector.toComplex w| := by
      rw [Vec.length_eq_norm, hvector, norm_projection]
    obtain ⟨d', rfl, hnear, hfar, hpulled⟩ := pulls.cut
    rw [hvector, hlength] at hnear hfar
    rw [hlength] at hpulled
    -- both moves are by the same parts
    rw [Ends.shift_shift]
    set total : Vec ℝ := ⟨d.x + d'.x, d.y + d'.y⟩
    have htotal : total.toComplex = d.toComplex + d'.toComplex := rfl
    have hvector' : (e.shift e.parts total).addBoost.vector.toComplex =
        direction.projection e.vector.toComplex w - d'.toComplex := by
      rw [Ends.vector_addBoost, hmobile.vector_shift, htotal, ← htaken, sub_sub]
    have hchange : e.vector.toComplex - (e.shift e.parts total).addBoost.vector.toComplex = total.toComplex := by
      rw [hvector', htotal, ← htaken]
      ring
    obtain ⟨hfirst, hsecond⟩ := hmobile.shifted total
    rw [← hvector'] at hnear hfar
    obtain ⟨hnorm, hside⟩ := projected_cut hreach hnear hfar
    rw [← Vec.length_eq_norm] at hnorm
    rw [← hchange] at hfirst hsecond
    refine ⟨⟨hnear, hfar, hnorm, hside, hfirst, hsecond⟩, ?_⟩
    rw [← htaken, sub_sub_cancel, Bool.and_eq_true, Bool.and_eq_true, Bool.not_eq_true', hpulled htolerance,
      decide_eq_true_iff, decide_eq_true_iff, and_assoc, and_comm]
    exact and_assoc

end Passes

namespace Act

/-- In exact arithmetic, with a valid configuration, for a pair whose ends can be moved: turning it to the value `w` of its
wanted angle succeeds, projects the vector between its ends, moves no other node, and answers whether the projection
changes less than the tolerance in each coordinate and sticks out of reach by less than that. -/
theorem turnOne_projects (st : Session ℝ) (c : ConstraintId) (first second : NodeId) (direction : Direction)
    (hshape : (st.assembly.constraint c).shape = .pair first second direction) (hne : first ≠ second) (w : ℝ)
    (hangle : (targetAngle c).answer st = .ok (some w)) (cfg : Config ℝ) (hcfg : cfg = st.assembly.configOf c)
    (hvalid : cfg.Valid) (e e' : Ends ℝ) (he : e = ⟨st.assembly.node first, st.assembly.node second⟩)
    (he' : e' = ⟨((turnOne c).after st).assembly.node first, ((turnOne c).after st).assembly.node second⟩)
    (hmobile : e.Mobile) : e.Projected cfg direction w e' ∧
      (∀ n, n ≠ first → n ≠ second → ((turnOne c).after st).assembly.node n = st.assembly.node n) ∧
      ∃ met, (turnOne c).answer st = .ok met ∧
        (met = true ↔ |(e.vector.toComplex - direction.projection e.vector.toComplex w).re| < cfg.tolerance ∧
          |(e.vector.toComplex - direction.projection e.vector.toComplex w).im| < cfg.tolerance ∧
          |advance e.vector.toComplex w| < cfg.reach + cfg.tolerance) := by
  obtain ⟨-, htolerance, hreach⟩ := hvalid
  obtain ⟨met, e'', hpass⟩ : ∃ met e'', anglePass cfg direction w e = .ok met e'' :=
    anglePass_succeeds_of_shares hreach hmobile.shares_eq rfl
  obtain ⟨hprojected, hmet⟩ := (turns_of_anglePass hpass).projected hmobile htolerance hreach
  have hturn : (turnOne c).answer st = .ok met ∧
      ((turnOne c).after st).assembly.node = e''.put first second st.assembly.node := by
    obtain ⟨⟨-, hnode⟩, -⟩ := (runs_targetAngle_as st.assembly c).at_session
    rw [he, hcfg, ← hnode] at hpass
    rw [answer_congr (turnOne_of_pair hshape), after_congr (turnOne_of_pair hshape), answer_bind_ok hangle,
      after_bind_ok hangle, ← hnode]
    refine Runs.at_session (Q := fun r b => r = .ok met ∧ b.node = e''.put first second _) (runs_onEnds hpass ⟨rfl, ?_⟩)
    funext n
    rw [Assembly.node_setNode, Assembly.node_setNode]
    rfl
  obtain ⟨hanswer, hput⟩ := hturn
  have hends : e' = e'' := by
    rw [he', hput, Ends.put_first hne, Ends.put_second]
  rw [hends, hput]
  exact ⟨hprojected, fun n hfirst hsecond => Ends.put_other hfirst hsecond, met, hanswer, hmet⟩

/-- The level of the slanted system is turned by moving its free end up by three quarters. -/
theorem turnOne_projects_slanted : (turnOne 1).answer slantedSession = .ok true ∧
    (((turnOne 1).after slantedSession).assembly.node 1).place = ⟨0, 23 / 2⟩ := by
  have hvalid : (⟨.int 256, 1, 1000000⟩ : Config ℝ).Valid := ⟨by decide, zero_lt_one, by norm_num⟩
  have hmobile : (⟨slantedSession.assembly.node 1, slantedSession.assembly.node 2⟩ : Ends ℝ).Mobile := by
    refine ⟨fun _ => ?_, fun hfree => (nomatch hfree), Or.inl rfl⟩
    change (0 : ℝ) < 1 + 0
    norm_num
  obtain ⟨hprojected, -, met, hanswer, hmet⟩ := turnOne_projects slantedSession 1 1 2 .either rfl (by decide) 0 rfl
    ⟨.int 256, 1, 1000000⟩ rfl hvalid _ _ rfl rfl hmobile
  set e : Ends ℝ := ⟨slantedSession.assembly.node 1, slantedSession.assembly.node 2⟩
  have hvector : e.vector.toComplex = ⟨10 - 0, 23 / 2 - 43 / 4⟩ := rfl
  have hadvance : advance e.vector.toComplex 0 = 10 := (advance_zero _).trans (sub_zero 10)
  have hprojection : Direction.either.projection e.vector.toComplex 0 = ⟨10, 0⟩ := by
    refine (if_pos (Or.inl rfl)).trans ?_
    rw [hadvance, bearing_zero, mul_one]
    rfl
  have hchange : e.vector.toComplex - Direction.either.projection e.vector.toComplex 0 = ⟨0, 3 / 4⟩ := by
    rw [hprojection, hvector]
    apply Complex.ext
    · norm_num
    · norm_num
  refine ⟨hanswer.trans (congrArg Except.ok (hmet.mpr ?_)), ?_⟩
  · rw [hchange, hadvance]
    norm_num [abs_lt]
  · have hnear := hprojected.near (by rw [hadvance]; norm_num)
    have hwhole : e.parts.1 = 1 := by
      have hnothing : e.parts.2 = 0 := (congrArg (· / _) (Node.mobility_of_base rfl)).trans (zero_div _)
      have hsum := hmobile.parts_sum
      rwa [hnothing, add_zero] at hsum
    have hplace := hprojected.first.place
    rw [hnear, hchange, hwhole, Complex.ofReal_one, one_mul] at hplace
    refine hplace.trans ?_
    apply Complex.ext
    · exact add_zero 0
    · change 43 / 4 + 3 / 4 = (23 / 2 : ℝ)
      norm_num

end Act

end Linkage
