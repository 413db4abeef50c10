import Linkage.Proofs.Displacement
import Linkage.Proofs.Divisors

/-!
# Linkage.Proofs.Bars — what the passes of a pair do, exactly

In exact arithmetic the two passes of a pair are geometry.  Ends that can be moved take parts of a correction in proportion
to how easily they move (`Ends.parts`), and a base node takes none.  So a pass on a bar with one end on a base node moves
the other end alone: turning projects the bar onto the target line (`anglePass_pinned`), stretching moves that end along
the bar until it is as far away as it should be (`lengthPass_pinned`).  Between two free ends a stretch is divided in
proportion to the weight of the other end (`lengthPass_loose`).  The last section brings this to whole corrections, where
targets are read from a coherent memory (`runs_correctOne_pair`).
-/

namespace Linkage

/-! ### Bearings -/

/-- The unit vector with the angle `w`. -/
noncomputable def bearing (w : ℝ) : ℂ := ⟨Real.cos w, Real.sin w⟩

/-- How far a point lies along the line through the origin with the angle `w`. -/
noncomputable def advance (z : ℂ) (w : ℝ) : ℝ := z.re * Real.cos w + z.im * Real.sin w

theorem norm_bearing (w : ℝ) : ‖bearing w‖ = 1 := by
  rw [Complex.norm_eq_sqrt_sq_add_sq, bearing, Real.cos_sq_add_sin_sq, Real.sqrt_one]

theorem norm_mul_bearing (t w : ℝ) : ‖(t : ℂ) * bearing w‖ = |t| := by
  rw [norm_mul, norm_bearing, mul_one, Complex.norm_real, Real.norm_eq_abs]

theorem bearing_zero : bearing 0 = 1 := Complex.ext Real.cos_zero Real.sin_zero

/-- What lies on the x-axis. -/
theorem Node.place_level {v : Node ℝ} {x : ℝ} (hx : v.x = x) (hy : v.y = 0) : v.place = x * bearing 0 := by
  rw [bearing_zero, mul_one]
  exact Complex.ext hx hy

theorem advance_zero (z : ℂ) : advance z 0 = z.re := by
  unfold advance
  rw [Real.cos_zero, Real.sin_zero, mul_one, mul_zero, add_zero]

theorem advance_mul_bearing (t v w : ℝ) : advance (t * bearing v) w = t * Real.cos (w - v) := by
  rw [Real.cos_sub, advance, Complex.re_ofReal_mul, Complex.im_ofReal_mul, bearing]
  ring

theorem advance_self (t : ℝ) {w : ℝ} : advance (t * bearing w) w = t := by
  rw [advance_mul_bearing, sub_self, Real.cos_zero, mul_one]

theorem offset_mul_bearing (t w : ℝ) : offset (t * bearing w) w = 0 := by
  rw [offset_mul, offset, bearing]
  ring

theorem advance_ofReal (r w : ℝ) : advance r w = r * Real.cos w := by
  rw [advance, Complex.ofReal_re, Complex.ofReal_im, zero_mul, add_zero]

theorem advance_add (z d : ℂ) (w : ℝ) : advance (z + d) w = advance z w + advance d w := by
  simp only [advance, Complex.add_re, Complex.add_im]
  ring

theorem advance_sub (z d : ℂ) (w : ℝ) : advance (z - d) w = advance z w - advance d w := by
  simp only [advance, Complex.sub_re, Complex.sub_im]
  ring

theorem advance_mul (r : ℝ) {z : ℂ} {w : ℝ} : advance (r * z) w = r * advance z w := by
  unfold advance
  rw [Complex.re_ofReal_mul, Complex.im_ofReal_mul]
  ring

theorem advance_neg {z : ℂ} {w : ℝ} : advance (-z) w = -advance z w := by
  unfold advance
  rw [Complex.neg_re, Complex.neg_im]
  ring

theorem abs_advance_le (z : ℂ) (w : ℝ) : |advance z w| ≤ ‖z‖ := by
  rw [Complex.norm_eq_sqrt_sq_add_sq]
  refine Real.abs_le_sqrt ?_
  have hparts : advance z w ^ 2 + offset z w ^ 2 = z.re ^ 2 + z.im ^ 2 := by
    unfold advance offset
    linear_combination (z.re ^ 2 + z.im ^ 2) * Real.sin_sq_add_cos_sq w
  have := sq_nonneg (offset z w)
  linarith

/-- How far a vector lies along a line and across it depends on the angle between them. -/
theorem advance_eq (z : ℂ) (w : ℝ) : advance z w = ‖z‖ * Real.cos (Complex.arg z - w) := by
  rw [Real.cos_sub, mul_add, ← mul_assoc, ← mul_assoc, Complex.norm_mul_cos_arg, Complex.norm_mul_sin_arg]
  rfl

theorem offset_eq (z : ℂ) (w : ℝ) : offset z w = ‖z‖ * Real.sin (Complex.arg z - w) := by
  rw [Real.sin_sub, mul_sub, ← mul_assoc, ← mul_assoc, Complex.norm_mul_cos_arg, Complex.norm_mul_sin_arg, offset]
  ring

/-- A point on a line is where it lies along it. -/
theorem advance_mul_bearing_of_offset {z : ℂ} {w : ℝ} (h : offset z w = 0) : advance z w * bearing w = z := by
  unfold offset at h
  apply Complex.ext
  · rw [Complex.re_ofReal_mul, advance, bearing]
    linear_combination Real.sin w * h + z.re * Real.sin_sq_add_cos_sq w
  · rw [Complex.im_ofReal_mul, advance, bearing]
    linear_combination -Real.cos w * h + z.im * Real.sin_sq_add_cos_sq w

theorem advance_own (z : ℂ) : advance z (Complex.arg z) = ‖z‖ := by
  rw [advance_eq, sub_self, Real.cos_zero, mul_one]

theorem offset_own (z : ℂ) : offset z (Complex.arg z) = 0 := by
  rw [offset_eq, sub_self, Real.sin_zero, mul_zero]

/-- A vector is as far along the line with its own angle as it is long. -/
theorem advance_arg (z : ℂ) : advance z (Complex.arg z) * bearing (Complex.arg z) = z :=
  advance_mul_bearing_of_offset (offset_own z)

/-- What is taken from a vector on a side that is not forbidden is its part across the line. -/
theorem sub_correction {direction : Direction} {v : Vec ℝ} {w : ℝ}
    (hside : direction = .either ∨ 0 < direction.sign * advance v.toComplex w) :
    v.toComplex - (direction.correction v ⟨Real.cos w, Real.sin w⟩).toComplex =
      advance v.toComplex w * bearing w := by
  have hcorrection : direction.correction v ⟨Real.cos w, Real.sin w⟩ =
      ⟨-(-v.x * Real.sin w + v.y * Real.cos w) * Real.sin w, (-v.x * Real.sin w + v.y * Real.cos w) * Real.cos w⟩ :=
    if_pos hside
  rw [hcorrection]
  apply Complex.ext
  · rw [Complex.re_ofReal_mul]
    simp only [Vec.toComplex, Complex.sub_re, advance, bearing]
    linear_combination -v.x * Real.sin_sq_add_cos_sq w
  · rw [Complex.im_ofReal_mul]
    simp only [Vec.toComplex, Complex.sub_im, advance, bearing]
    linear_combination -v.y * Real.sin_sq_add_cos_sq w

theorem Vec.length_eq_of_sq {v : Vec ℝ} {x : ℝ} (hx : 0 ≤ x) (h : v.x ^ 2 + v.y ^ 2 = x ^ 2) : v.length = x := by
  unfold Vec.length
  rw [Scalar.hypot_real, h, Real.sqrt_sq hx]

/-- The unit vector along which a vector is stretched: its own direction, or that of the x-axis if it is too short. -/
noncomputable def Vec.course (v : Vec ℝ) : ℂ := if Scalar.epsilon < v.length then v.toComplex / v.length else 1

namespace Vec

variable {v : Vec ℝ}

theorem course_of_short (h : ¬Scalar.epsilon < v.length) : v.course = 1 := if_neg h

theorem length_mul_course (h : Scalar.epsilon < v.length) : v.length * v.course = v.toComplex := by
  have hpos : 0 < v.length := Scalar.Signs.epsilon_pos.trans h
  rw [course, if_pos h]
  exact mul_div_cancel₀ _ (Complex.ofReal_ne_zero.mpr hpos.ne')

theorem norm_course (v : Vec ℝ) : ‖v.course‖ = 1 := by
  by_cases h : Scalar.epsilon < v.length
  · have hpos : 0 < v.length := Scalar.Signs.epsilon_pos.trans h
    rw [course, if_pos h, norm_div, ← length_eq_norm, Complex.norm_real, Real.norm_of_nonneg hpos.le, div_self hpos.ne']
  · rw [course_of_short h, norm_one]

/-- A vector on a line is as long as it is along it, and points along it or against it. -/
theorem length_on_line {t w : ℝ} (hv : v.toComplex = t * bearing w) : v.length = |t| := by
  rw [length_eq_norm, hv, norm_mul_bearing]

theorem course_on_line {t w : ℝ} (hv : v.toComplex = t * bearing w) (h : Scalar.epsilon < v.length) :
    v.course = (t / |t| : ℝ) * bearing w := by
  rw [course, if_pos h, length_on_line hv, hv, Complex.ofReal_div, mul_div_right_comm]

theorem direction_eq (v : Vec ℝ) : v.direction = .ok ⟨v.course.re, v.course.im⟩ := by
  unfold direction course
  dsimp only
  by_cases h : Scalar.epsilon < v.length
  · have hpos : 0 < v.length := Scalar.Signs.epsilon_pos.trans h
    have hquotient (x : ℝ) : Scalar.divide x v.length = .ok (x / v.length) :=
      Scalar.divide_eq_ok.mpr ⟨hpos.ne', rfl⟩
    rw [if_pos h, if_pos h, hquotient, hquotient, Complex.div_ofReal_re, Complex.div_ofReal_im]
    rfl
  · rw [if_neg h, if_neg h]
    rfl

end Vec

/-! ### Parts of a correction -/

/-- How easily a node moves: the inverse of its effective mass, and not at all for a base node. -/
noncomputable def Node.mobility (n : Node ℝ) : ℝ := if n.base then 0 else 1 / n.effectiveMass

/-- Ends that can be moved: each is a base node or has a positive effective mass, and one of them is no base node. -/
structure Ends.Mobile (e : Ends ℝ) : Prop where
  first : e.first.base = false → 0 < e.first.effectiveMass
  second : e.second.base = false → 0 < e.second.effectiveMass
  free : e.first.base = false ∨ e.second.base = false

/-- The parts of a correction that the ends take, in proportion to how easily they move. -/
noncomputable def Ends.parts (e : Ends ℝ) : ℝ × ℝ :=
  (e.first.mobility / (e.first.mobility + e.second.mobility),
    e.second.mobility / (e.first.mobility + e.second.mobility))

namespace Node

variable {n : Node ℝ}

theorem mobility_of_base (h : n.base = true) : n.mobility = 0 := if_pos h

theorem mobility_of_free (h : n.base = false) : n.mobility = 1 / n.effectiveMass := if_neg (by simp [h])

theorem mobility_pos (hmass : n.base = false → 0 < n.effectiveMass) (h : n.base = false) : 0 < n.mobility := by
  rw [mobility_of_free h]
  exact one_div_pos.mpr (hmass h)

theorem mobility_nonneg (hmass : n.base = false → 0 < n.effectiveMass) : 0 ≤ n.mobility := by
  cases h : n.base with
  | true => exact (mobility_of_base h).ge
  | false => exact (mobility_pos hmass h).le

theorem inverseMass_eq (hmass : n.base = false → 0 < n.effectiveMass) : n.inverseMass = .ok n.mobility := by
  cases h : n.base with
  | true => rw [inverseMass_of_base h, mobility_of_base h]
  | false =>
    rw [mobility_of_free h]
    unfold inverseMass
    rw [h]
    exact Scalar.divide_eq_ok.mpr ⟨(hmass h).ne', rfl⟩

end Node

namespace Ends.Mobile

variable {e : Ends ℝ}

theorem mobility_pos (h : e.Mobile) : 0 < e.first.mobility + e.second.mobility := by
  rcases h.free with hfree | hfree
  · exact add_pos_of_pos_of_nonneg (Node.mobility_pos h.first hfree) (Node.mobility_nonneg h.second)
  · exact add_pos_of_nonneg_of_pos (Node.mobility_nonneg h.first) (Node.mobility_pos h.second hfree)

theorem shares_eq (h : e.Mobile) : e.shares = .ok e.parts := by
  have hmasses : e.shares = Linkage.shares e.first.mobility e.second.mobility := by
    unfold Ends.shares
    rw [Node.inverseMass_eq h.first, Node.inverseMass_eq h.second]
    rfl
  have hquotient (x : ℝ) : Scalar.divide x (e.first.mobility + e.second.mobility) =
      .ok (x / (e.first.mobility + e.second.mobility)) := Scalar.divide_eq_ok.mpr ⟨h.mobility_pos.ne', rfl⟩
  have hsum : ¬Scalar.isZero (e.first.mobility + e.second.mobility) := by
    rw [Scalar.isZero_real]
    exact h.mobility_pos.ne'
  rw [hmasses]
  unfold Linkage.shares
  dsimp only
  rw [if_neg hsum, hquotient, hquotient]
  rfl

theorem parts_sum (h : e.Mobile) : e.parts.1 + e.parts.2 = 1 := by
  unfold Ends.parts
  rw [← add_div]
  exact div_self h.mobility_pos.ne'

/-- Two ends that are free take parts of the same weight. -/
theorem weights (h : e.Mobile) (hfirst : e.first.base = false) (hsecond : e.second.base = false) :
    e.first.effectiveMass * e.parts.1 = e.second.effectiveMass * e.parts.2 := by
  have hweight {m : ℝ} (hm : 0 < m) (sum : ℝ) : m * (1 / m / sum) = 1 / sum := by
    rw [← mul_div_assoc, mul_one_div_cancel hm.ne']
  unfold Ends.parts
  dsimp only
  rw [Node.mobility_of_free hfirst, Node.mobility_of_free hsecond, hweight (h.first hfirst), hweight (h.second hsecond)]

end Ends.Mobile

/-! ### Nodes at the start of a sweep -/

namespace Node

variable {n : Node ℝ}

theorem place_clearBoost (n : Node ℝ) : n.clearBoost.place = n.place := by
  unfold clearBoost
  split
  · rfl
  · rfl

theorem base_clearBoost (n : Node ℝ) : n.clearBoost.base = n.base := (Worked.cleared .start).body.2.1

theorem mass_clearBoost (n : Node ℝ) : n.clearBoost.mass = n.mass := (Worked.cleared .start).body.1

/-- What a free node weighs before it is corrected. -/
theorem effectiveMass_clearBoost (h : n.base = false) : n.clearBoost.effectiveMass = n.mass := by
  unfold clearBoost
  rw [if_neg (by simp [h])]
  exact add_zero n.mass

theorem effectiveMass_clearBoost_pos (hmass : n.base = false → 0 < n.mass) (h : n.clearBoost.base = false) :
    0 < n.clearBoost.effectiveMass := by
  have hfree : n.base = false := n.base_clearBoost.symm.trans h
  rw [effectiveMass_clearBoost hfree]
  exact hmass hfree

/-- How easily a node moves before it is corrected depends on what it is. -/
theorem mobility_clearBoost {v : Node ℝ} (hbase : v.base = n.base) (hmass : v.mass = n.mass) :
    v.clearBoost.mobility = n.clearBoost.mobility := by
  cases h : n.base with
  | true =>
    rw [mobility_of_base (v.base_clearBoost.trans (hbase.trans h)), mobility_of_base (n.base_clearBoost.trans h)]
  | false =>
    rw [mobility_of_free (v.base_clearBoost.trans (hbase.trans h)), mobility_of_free (n.base_clearBoost.trans h),
      effectiveMass_clearBoost (hbase.trans h), effectiveMass_clearBoost h, hmass]

end Node

/-! ### Moved and counted -/

/-- The node is moved by `d` and the correction counted; a base node is as it was. -/
structure Node.Shifted (v w : Node ℝ) (d : ℂ) : Prop where
  place : w.place = v.place + d
  still : v.base = true → w = v
  boost : v.base = false → w.boost = v.boost + 1
  body : w.base = v.base ∧ w.mass = v.mass ∧ w.name = v.name

/-- A node that could be moved before can be moved again. -/
theorem Node.Shifted.effectiveMass_pos {v w : Node ℝ} {d : ℂ} (h : v.Shifted w d)
    (hmass : v.base = false → 0 < v.effectiveMass) (hfree : w.base = false) : 0 < w.effectiveMass := by
  have hbase : v.base = false := h.body.1.symm.trans hfree
  have hpos : 0 < v.mass + v.boost := hmass hbase
  change 0 < w.mass + w.boost
  rw [h.body.2.1, h.boost hbase, ← add_assoc]
  exact add_pos hpos zero_lt_one

theorem Node.shifted_moveTo {v : Node ℝ} {x y : ℝ} {d : ℂ} (hplace : (⟨x, y⟩ : ℂ) = v.place + d)
    (hstill : v.base = true → x = v.x ∧ y = v.y) : v.Shifted (v.moveTo x y).addBoost d := by
  refine ⟨(place_addBoost _).trans hplace, fun hbase => ?_, fun hfree => ?_, ?_⟩
  · obtain ⟨rfl, rfl⟩ := hstill hbase
    exact if_pos hbase
  · unfold addBoost
    rw [if_neg (by simp [moveTo, hfree])]
    rfl
  · unfold addBoost
    split
    · exact ⟨rfl, rfl, rfl⟩
    · exact ⟨rfl, rfl, rfl⟩

namespace Ends

variable {e : Ends ℝ}

/-- Ends that are moved by their parts of a correction. -/
theorem Mobile.shifted (h : e.Mobile) (d : Vec ℝ) :
    e.first.Shifted (e.shift e.parts d).addBoost.first (e.parts.1 * d.toComplex) ∧
      e.second.Shifted (e.shift e.parts d).addBoost.second (-(e.parts.2 * d.toComplex)) := by
  have hspared := Ends.spared h.shares_eq
  have hdrifts := drifts_shift e.parts d e
  refine ⟨Node.shifted_moveTo hdrifts.first fun hbase => ?_,
    Node.shifted_moveTo (hdrifts.second.trans (sub_eq_add_neg _ _)) fun hbase => ?_⟩
  · rw [hspared.first hbase, zero_mul, zero_mul, add_zero, add_zero]
    exact ⟨rfl, rfl⟩
  · rw [hspared.second hbase, zero_mul, zero_mul, sub_zero, sub_zero]
    exact ⟨rfl, rfl⟩

/-- The whole of a correction is taken from the vector between the ends. -/
theorem Mobile.vector_shift (h : e.Mobile) (d : Vec ℝ) :
    (e.shift e.parts d).vector.toComplex = e.vector.toComplex - d.toComplex := by
  rw [(drifts_shift e.parts d e).vector, h.parts_sum, Complex.ofReal_one, one_mul]

end Ends

/-! ### Ends -/

/-- A base node in a place. -/
structure Node.Pinned (v : Node ℝ) (z : ℂ) : Prop where
  base : v.base = true
  place : v.place = z

/-- A node in a place that is free to move, with an effective mass. -/
structure Node.Loose (v : Node ℝ) (z : ℂ) (weight : ℝ) : Prop where
  base : v.base = false
  place : v.place = z
  weight : v.effectiveMass = weight

/-- A node is not fixed and free at once. -/
theorem Node.Pinned.ne_of_loose {node : NodeId → Node ℝ} {m n : NodeId} {p q : ℂ} {weight : ℝ}
    (hm : (node m).Pinned p) (hn : (node n).Loose q weight) : m ≠ n := by
  rintro rfl
  exact absurd (hm.base.symm.trans hn.base) (by decide)

namespace Node.Loose

variable {v : Node ℝ} {z : ℂ} {weight : ℝ}

/-- A correction moves the node and counts. -/
theorem shifted {w : Node ℝ} {d : ℂ} (h : v.Loose z weight) (hw : v.Shifted w d) : w.Loose (z + d) (weight + 1) := by
  refine ⟨hw.body.1.trans h.base, by rw [hw.place, h.place], ?_⟩
  have hweight : v.mass + v.boost = weight := h.weight
  change w.mass + w.boost = weight + 1
  rw [hw.body.2.1, hw.boost h.base, ← add_assoc, hweight]

end Node.Loose

namespace Ends

variable {e : Ends ℝ} {p q : ℂ} {m n : ℝ}

/-- An end that is free takes all of a correction if the other one is a base node. -/
theorem parts_pinned (hfirst : e.first.Pinned p) (hsecond : e.second.Loose q n) (hn : 0 < n) :
    e.Mobile ∧ e.parts = (0, 1) := by
  have hmobile : e.Mobile := by
    refine ⟨fun hfree => absurd (hfirst.base.symm.trans hfree) (by decide), fun _ => ?_, Or.inr hsecond.base⟩
    rwa [hsecond.weight]
  have hpos := Node.mobility_pos hmobile.second hsecond.base
  refine ⟨hmobile, ?_⟩
  unfold parts
  rw [Node.mobility_of_base hfirst.base, zero_add, zero_div, div_self hpos.ne']

/-- Two free ends share a correction in proportion to the weight of the other. -/
theorem parts_loose (hfirst : e.first.Loose p m) (hsecond : e.second.Loose q n) (hm : 0 < m) (hn : 0 < n) :
    e.Mobile ∧ e.parts = (n / (m + n), m / (m + n)) := by
  have hmobile : e.Mobile := by
    refine ⟨fun _ => ?_, fun _ => ?_, Or.inl hfirst.base⟩
    · rwa [hfirst.weight]
    · rwa [hsecond.weight]
  have hleft : 1 / m / (1 / m + 1 / n) = n / (m + n) := by
    field_simp
    ring
  have hright : 1 / n / (1 / m + 1 / n) = m / (m + n) := by
    field_simp
    ring
  refine ⟨hmobile, ?_⟩
  unfold parts
  rw [Node.mobility_of_free hfirst.base, Node.mobility_of_free hsecond.base, hfirst.weight, hsecond.weight, hleft, hright]

theorem toComplex_vector_pinned {z : ℂ} (hfirst : e.first.Pinned p) (hsecond : e.second.Loose (p + z) n) :
    e.vector.toComplex = z := by
  unfold vector
  rw [Node.toComplex_vectorTo, hfirst.place, hsecond.place, add_sub_cancel_left]

end Ends

/-! ### Passes -/

variable (cfg : Config ℝ) {e : Ends ℝ} {p q z : ℂ} {m n : ℝ}

/-- Turning a bar on a base node projects its free end onto the target line. -/
theorem anglePass_pinned (hfirst : e.first.Pinned p) (hsecond : e.second.Loose (p + z) n) (hn : 0 < n)
    {direction : Direction} {w : ℝ} (hside : direction = .either ∨ 0 < direction.sign * advance z w)
    (hreach : |advance z w| ≤ cfg.reach) : ∃ met e', anglePass cfg direction w e = .ok met e' ∧ e'.first = e.first ∧
      e'.second.Loose (p + advance z w * bearing w) (n + 1) := by
  obtain ⟨hmobile, hparts⟩ := Ends.parts_pinned hfirst hsecond hn
  have hvector := Ends.toComplex_vector_pinned hfirst hsecond
  set d := direction.correction e.vector ⟨Real.cos w, Real.sin w⟩ with hd
  have htaken : z - d.toComplex = advance z w * bearing w := by
    rw [← hvector] at hside ⊢
    exact sub_correction hside
  have hnear : ¬cfg.reach < (e.shift e.parts d).vector.length := by
    rw [Vec.length_eq_norm, hmobile.vector_shift, hvector, htaken, norm_mul_bearing]
    exact not_lt.mpr hreach
  obtain ⟨hkept, hmoved⟩ := hmobile.shifted d
  refine ⟨_, _, anglePass_of_near (Scalar.heading_real w) hmobile.shares_eq hd.symm hnear, hkept.still hfirst.base, ?_⟩
  have hwhole : e.parts.2 = 1 := congrArg Prod.snd hparts
  have hsecond' := hsecond.shifted hmoved
  rwa [hwhole, Complex.ofReal_one, one_mul, ← sub_eq_add_neg, add_sub_assoc, htaken] at hsecond'

theorem toComplex_scaled (t : ℝ) (u : Vec ℝ) : (⟨t * u.x, t * u.y⟩ : Vec ℝ).toComplex = t * u.toComplex := by
  apply Complex.ext
  · rw [Complex.re_ofReal_mul]
    rfl
  · rw [Complex.im_ofReal_mul]
    rfl

/-- A stretch that is needed moves the ends along the bar by their shares. -/
theorem lengthPass_of_far {cfg : Config ℝ} {target : ℝ} {share : ℝ × ℝ} {u : Vec ℝ}
    (far : ¬Scalar.abs (target - e.vector.length) < cfg.tolerance) (towards : e.vector.direction = .ok u)
    (shared : e.shares = .ok share) : lengthPass cfg target e =
      .ok false (e.shift share ⟨-(target - e.vector.length) * u.x, -(target - e.vector.length) * u.y⟩).addBoost := by
  have hget : (get : Pass ℝ (Ends ℝ) (Ends ℝ)) e = .ok e e := rfl
  have hdirection : Pass.ofExcept e.vector.direction e = .ok u e := by
    rw [towards]
    rfl
  have hshare : Pass.ofExcept e.shares e = .ok share e := by
    rw [shared]
    rfl
  refine (Pass.then_ok hget).trans ?_
  rw [if_neg far]
  exact (Pass.then_ok hdirection).trans (Pass.then_ok hshare)

/-- Stretching ends that can be moved shifts them along the vector between them, if that is needed. -/
theorem lengthPass_far (h : e.Mobile) {target : ℝ} (hfar : cfg.tolerance ≤ |target - e.vector.length|) :
    ∃ e', lengthPass cfg target e = .ok false e' ∧
      e.first.Shifted e'.first (-((e.parts.1 * (target - e.vector.length) : ℝ) * e.vector.course)) ∧
      e.second.Shifted e'.second ((e.parts.2 * (target - e.vector.length) : ℝ) * e.vector.course) := by
  set u : Vec ℝ := ⟨e.vector.course.re, e.vector.course.im⟩ with hu
  have hcourse : u.toComplex = e.vector.course := rfl
  have hpart (part : ℝ) : (part : ℂ) * ((-(target - e.vector.length) : ℝ) * e.vector.course) =
      -((part * (target - e.vector.length) : ℝ) * e.vector.course) := by
    push_cast
    ring
  obtain ⟨hfirst, hsecond⟩ := h.shifted ⟨-(target - e.vector.length) * u.x, -(target - e.vector.length) * u.y⟩
  rw [toComplex_scaled, hcourse, hpart] at hfirst hsecond
  rw [neg_neg] at hsecond
  exact ⟨_, lengthPass_of_far (not_lt.mpr hfar) e.vector.direction_eq h.shares_eq, hfirst, hsecond⟩

/-- The vector between them gets all of what it lacks. -/
theorem Ends.Mobile.vector_stretched (h : e.Mobile) {e' : Ends ℝ} {x : ℝ} {u : ℂ}
    (hfirst : e.first.Shifted e'.first (-((e.parts.1 * x : ℝ) * u)))
    (hsecond : e.second.Shifted e'.second ((e.parts.2 * x : ℝ) * u)) :
    e'.vector.toComplex = e.vector.toComplex + x * u := by
  have hsum := congrArg Complex.ofReal h.parts_sum
  rw [vector, Node.toComplex_vectorTo, hfirst.place, hsecond.place, vector, Node.toComplex_vectorTo]
  push_cast at hsum ⊢
  linear_combination (x : ℂ) * u * hsum

/-- Stretching ends that can be moved leaves them if they are near their distance, and shifts them along a unit vector
otherwise, which is the one with the direction of the vector between them if that has one. -/
theorem lengthPass_mobile (h : e.Mobile) (target : ℝ) :
    lengthPass cfg target e = .ok true e ∧ |target - e.vector.length| < cfg.tolerance ∨
      ∃ (u : ℂ) (e' : Ends ℝ), lengthPass cfg target e = .ok false e' ∧ ‖u‖ = 1 ∧
        (Scalar.epsilon < e.vector.length → e.vector.length * u = e.vector.toComplex) ∧
        e.first.Shifted e'.first (-((e.parts.1 * (target - e.vector.length) : ℝ) * u)) ∧
        e.second.Shifted e'.second ((e.parts.2 * (target - e.vector.length) : ℝ) * u) := by
  by_cases hnear : |target - e.vector.length| < cfg.tolerance
  · exact Or.inl ⟨lengthPass_of_near hnear, hnear⟩
  · obtain ⟨e', hpass, hfirst, hsecond⟩ := lengthPass_far cfg h (not_lt.mp hnear)
    exact Or.inr ⟨_, e', hpass, e.vector.norm_course, Vec.length_mul_course, hfirst, hsecond⟩

/-- Stretching a bar on a base node leaves it if it is near its length, and moves its free end along it otherwise. -/
theorem lengthPass_pinned (hfirst : e.first.Pinned p) (hsecond : e.second.Loose (p + z) n) (hn : 0 < n) (target : ℝ) :
    lengthPass cfg target e = .ok true e ∧ |target - ‖z‖| < cfg.tolerance ∨
      ∃ (u : ℂ) (e' : Ends ℝ), lengthPass cfg target e = .ok false e' ∧ e'.first = e.first ∧ ‖u‖ = 1 ∧
        (Scalar.epsilon < ‖z‖ → ‖z‖ * u = z) ∧ e'.second.Loose (p + (z + (target - ‖z‖ : ℝ) * u)) (n + 1) := by
  have hvector := Ends.toComplex_vector_pinned hfirst hsecond
  have hlength : e.vector.length = ‖z‖ := by rw [Vec.length_eq_norm, hvector]
  obtain ⟨hmobile, hparts⟩ := Ends.parts_pinned hfirst hsecond hn
  have hpass := lengthPass_mobile cfg hmobile target
  rw [hlength, hvector, hparts] at hpass
  refine hpass.imp_right ?_
  rintro ⟨u, e', hpass, hunit, hscaled, hkept, hmoved⟩
  have hsecond' := hsecond.shifted hmoved
  rw [one_mul, add_assoc] at hsecond'
  exact ⟨u, e', hpass, hkept.still hfirst.base, hunit, hscaled, hsecond'⟩

/-- Stretching a bar between free ends leaves it if it is near its length, and moves both ends along it otherwise. -/
theorem lengthPass_loose (hfirst : e.first.Loose p m) (hsecond : e.second.Loose q n) (hm : 0 < m) (hn : 0 < n)
    (target : ℝ) : lengthPass cfg target e = .ok true e ∧ |target - ‖q - p‖| < cfg.tolerance ∨
      ∃ (u : ℂ) (e' : Ends ℝ), lengthPass cfg target e = .ok false e' ∧ ‖u‖ = 1 ∧
        (Scalar.epsilon < ‖q - p‖ → ‖q - p‖ * u = q - p) ∧
        e'.first.Loose (p - (n / (m + n) * (target - ‖q - p‖) : ℝ) * u) (m + 1) ∧
        e'.second.Loose (q + (m / (m + n) * (target - ‖q - p‖) : ℝ) * u) (n + 1) := by
  have hvector : e.vector.toComplex = q - p := by
    unfold Ends.vector
    rw [Node.toComplex_vectorTo, hfirst.place, hsecond.place]
  have hlength : e.vector.length = ‖q - p‖ := by rw [Vec.length_eq_norm, hvector]
  obtain ⟨hmobile, hparts⟩ := Ends.parts_loose hfirst hsecond hm hn
  have hpass := lengthPass_mobile cfg hmobile target
  rw [hlength, hvector, hparts] at hpass
  refine hpass.imp_right ?_
  rintro ⟨u, e', hpass, hunit, hscaled, hmoved, hmoved'⟩
  have hfirst' := hfirst.shifted hmoved
  rw [← sub_eq_add_neg] at hfirst'
  exact ⟨u, e', hpass, hunit, hscaled, hfirst', hsecond.shifted hmoved'⟩

/-! ### Corrections -/

/-- Runs a pass towards a wanted value; where none is wanted, nothing is missed. -/
def Pass.toward {α : Type} (pass : α → Pass α (Ends α) Bool) : Option α → Pass α (Ends α) Bool
  | some target => pass target
  | none => return true

section Put

variable {α : Type} {e : Ends α} {first second n : NodeId} {node : NodeId → Node α}

@[simp] theorem Ends.put_second : e.put first second node second = e.second := if_pos rfl

theorem Ends.put_first (hne : first ≠ second) : e.put first second node first = e.first := by
  unfold put
  rw [if_neg hne.symm, if_pos rfl]

theorem Ends.put_other (hfirst : n ≠ first) (hsecond : n ≠ second) : e.put first second node n = node n := by
  unfold put
  rw [if_neg hsecond.symm, if_neg hfirst.symm]

end Put

/-- Putting two nodes where they are changes nothing. -/
theorem Ends.put_self {α : Type} (first second : NodeId) (node : NodeId → Node α) :
    (⟨node first, node second⟩ : Ends α).put first second node = node := by
  funext n
  unfold put
  dsimp only
  split
  case isTrue hn => rw [hn]
  case isFalse =>
    split
    case isTrue hn => rw [hn]
    case isFalse => rfl

namespace Act

open Assembly (Coherent Corrected)

variable {α : Type} [Scalar α] {a : Assembly α} {c : ConstraintId} {first second : NodeId} {direction : Direction}
  {made : List Reference}

theorem runs_meet_toward {pass : α → Pass α (Ends α) Bool} {target? : Option α} {met : Bool} {e : Ends α}
    (h : Pass.toward pass target? ⟨a.node first, a.node second⟩ = .ok met e) :
    Runs (meet (fun target => onEnds first second (pass target)) target?) a fun r b =>
      r = .ok met ∧ b.node = e.put first second a.node := by
  cases target? with
  | none =>
    cases h
    exact runs_pure ⟨rfl, (Ends.put_self first second a.node).symm⟩
  | some target =>
    refine runs_onEnds h ⟨rfl, funext fun n => ?_⟩
    rw [Assembly.node_setNode, Assembly.node_setNode]
    rfl

/-- A fixed length is read as it is. -/
theorem runs_targetLength_fixed {length? : Option α} (hlength : (a.constraint c).lengthTarget = length?.map .fixed) :
    Runs (targetLength c) a fun r b => r = .ok length? ∧ b = a := by
  refine runs_read ?_
  rw [hlength]
  cases length? with
  | none => exact runs_pure ⟨rfl, rfl⟩
  | some target => exact runs_bind_pure (runs_pure ⟨rfl, rfl⟩)

/-- So is a fixed angle. -/
theorem runs_targetAngle_fixed {angle? : Option α} (hangle : (a.constraint c).angleTarget = angle?.map .fixed) :
    Runs (targetAngle c) a fun r b => r = .ok angle? ∧ b = a := by
  refine runs_read ?_
  rw [hangle]
  cases angle? with
  | none => exact runs_pure ⟨rfl, rfl⟩
  | some target => exact runs_bind_pure (runs_pure ⟨rfl, rfl⟩)

/-- Reading a fixed angle moves no node. -/
theorem runs_targetAngle_fixed_node {angle? : Option α} (hangle : (a.constraint c).angleTarget = angle?.map .fixed) :
    Runs (targetAngle c) a fun r b => r = .ok angle? ∧ b.node = a.node :=
  (runs_targetAngle_fixed hangle).mono fun _ _ ⟨hr, hb⟩ => ⟨hr, congrArg Assembly.node hb⟩

/-- A pair whose wanted angle is read without moving a node is turned by the pass towards it. -/
theorem runs_turnOne_toward (hshape : (a.constraint c).shape = .pair first second direction) {angle? : Option α}
    {met : Bool} {e : Ends α} (hread : Runs (targetAngle c) a fun r b => r = .ok angle? ∧ b.node = a.node)
    (hturn : Pass.toward (anglePass (a.configOf c) direction) angle? ⟨a.node first, a.node second⟩ = .ok met e) :
    Runs (turnOne c) a fun r b => r = .ok met ∧ b.node = e.put first second a.node := by
  refine runs_turnOne hshape (hread.mono ?_)
  rintro _ b ⟨rfl, hnode⟩
  rw [then_ok]
  rw [← hnode] at hturn ⊢
  exact runs_meet_toward hturn

/-- If it wants a fixed length or none, it is corrected by this pass and the one towards that length. -/
theorem runs_correctOne_toward (hshape : (a.constraint c).shape = .pair first second direction) (hne : first ≠ second)
    {angle? length? : Option α} {angleMet lengthMet : Bool} {e e' : Ends α}
    (hread : Runs (targetAngle c) a fun r b => r = .ok angle? ∧ b.node = a.node)
    (hlength : (a.constraint c).lengthTarget = length?.map .fixed)
    (hturn : Pass.toward (anglePass (a.configOf c) direction) angle? ⟨a.node first, a.node second⟩ = .ok angleMet e)
    (hstretch : Pass.toward (lengthPass (a.configOf c)) length? e = .ok lengthMet e') :
    Runs (correctOne c) a fun r b => r = .ok (lengthMet && angleMet) ∧ b.node = e'.put first second a.node := by
  refine runs_correctOne_of_halves hshape
    (((runs_turnOne_toward hshape hread hturn).and (runs_turnOne_corrected hshape)).mono ?_)
  rintro _ b ⟨⟨rfl, hnode⟩, hcorrected⟩
  rw [then_ok]
  have hends : (⟨b.node first, b.node second⟩ : Ends α) = e := by
    rw [hnode, Ends.put_first hne, Ends.put_second]
  have hread : Runs (targetLength c) b fun r b' => r = .ok length? ∧ b' = b :=
    runs_targetLength_fixed (by rw [hcorrected.constraint, hlength])
  refine runs_bind_pure (runs_stretchOne (by rw [hcorrected.constraint, hshape]) (hread.mono ?_))
  rintro _ _ ⟨rfl, rfl⟩
  rw [then_ok, hcorrected.samePlan.configOf]
  refine (runs_meet_toward (by rwa [hends])).mono ?_
  rintro _ b' ⟨rfl, hnode'⟩
  refine ⟨rfl, ?_⟩
  rw [hnode', hnode]
  -- writing both ends a second time overwrites what the first half wrote
  funext n
  unfold Ends.put
  split
  · rfl
  · split
    · rfl
    · rfl

/-- A pair with a fixed length or none is corrected by the passes towards what it wants. -/
theorem runs_correctOne_pair (h : Coherent made a) (hshape : (a.constraint c).shape = .pair first second direction)
    (hne : first ≠ second) {angle? length? : Option α} {angleMet lengthMet : Bool} {e e' : Ends α}
    (hangle : a.wanted c (a.constraint c).angleTarget = .ok angle?)
    (hlength : (a.constraint c).lengthTarget = length?.map .fixed)
    (hturn : Pass.toward (anglePass (a.configOf c) direction) angle? ⟨a.node first, a.node second⟩ = .ok angleMet e)
    (hstretch : Pass.toward (lengthPass (a.configOf c)) length? e = .ok lengthMet e') :
    Runs (correctOne c) a fun r b => r = .ok (lengthMet && angleMet) ∧ b.node = e'.put first second a.node :=
  runs_correctOne_toward hshape hne ((runs_targetAngle_of_coherent h c).mono fun _ _ ⟨hread, hconsulted⟩ =>
    ⟨hread.trans hangle, funext hconsulted.node⟩) hlength hturn hstretch

end Act

end Linkage
