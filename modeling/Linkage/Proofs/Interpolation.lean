import Linkage.Proofs.Sectors

/-!
# Linkage.Proofs.Interpolation — angles between those of two other constraints

A target of `angle.delta` starts at the angle of one constraint and goes towards that of another by a part of their wrapped
difference.  In exact arithmetic the whole way ends at the nearest of the numbers that are the other angle (`isNearest_wrap`),
so it takes the shorter arc wherever that crosses the cut.  Back from there the difference is the opposite number, unless
it is half a turn, and the same target with the rest of the way comes to the same angle (`coe_between_symm`).
-/

namespace Linkage

/-! ### The shorter way round -/

/-- The number `y` is the angle `w`, whole turns apart, and no number that is comes closer to `v`. -/
def IsNearest (v w y : ℝ) : Prop := (y : Real.Angle) = w ∧ ∀ z : ℝ, (z : Real.Angle) = w → |y - v| ≤ |z - v|

/-- The number lies on the arc from `v` to `w` that is the shorter one, or on one of the two if they are opposite. -/
def OnShorterArc (v w x : ℝ) : Prop := ∃ y, IsNearest v w y ∧ x ∈ Set.uIcc v y

namespace Scalar

theorem abs_wrap_le_pi (x : ℝ) : |Scalar.wrap x| ≤ Real.pi := by
  rw [wrap_real]
  exact Real.Angle.abs_toReal_le_pi x

/-- Wrapping brings an angle no further from zero. -/
theorem abs_wrap_le (x : ℝ) : |Scalar.wrap x| ≤ |x| := by
  by_cases h : |x| < Real.pi
  · obtain ⟨hlower, hupper⟩ := abs_lt.mp h
    rw [wrap_real, Real.Angle.toReal_coe_eq_self_iff.mpr ⟨hlower, hupper.le⟩]
  · exact (abs_wrap_le_pi x).trans (not_lt.mp h)

/-- Only half a turn is wrapped to the same number in both directions. -/
theorem wrap_neg {x : ℝ} (h : (x : Real.Angle) ≠ Real.pi) : Scalar.wrap (-x) = -Scalar.wrap x := by
  obtain ⟨hlower, hupper⟩ := wrap_mem x
  have hless : Scalar.wrap x < Real.pi := by
    refine lt_of_le_of_ne hupper fun heq => h ?_
    rw [← coe_wrap x, heq]
  have hcoe : ((-x : ℝ) : Real.Angle) = (-Scalar.wrap x : ℝ) := by
    rw [Real.Angle.coe_neg, Real.Angle.coe_neg, coe_wrap]
  rw [wrap_real, hcoe]
  exact Real.Angle.toReal_coe_eq_self_iff.mpr ⟨neg_lt_neg hless, (neg_lt.mpr hlower).le⟩

end Scalar

section Between

variable {v w scale : ℝ}

theorem isNearest_wrap (v w : ℝ) : IsNearest v w (v + Scalar.wrap (w - v)) := by
  constructor
  · rw [Real.Angle.coe_add, Scalar.coe_wrap, Real.Angle.coe_sub, add_sub_cancel]
  · intro z hz
    have hwrap : Scalar.wrap (w - v) = Scalar.wrap (z - v) := by
      rw [Scalar.wrap_real, Scalar.wrap_real, Real.Angle.coe_sub, Real.Angle.coe_sub, hz]
    rw [add_sub_cancel_left, hwrap]
    exact Scalar.abs_wrap_le (z - v)

/-- A part of the way stays on it. -/
theorem onShorterArc_between (h : scale ∈ Set.Icc 0 1) : OnShorterArc v w (v + scale * Scalar.wrap (w - v)) := by
  refine ⟨_, isNearest_wrap v w, ?_⟩
  rw [Set.mem_uIcc]
  obtain ⟨hlower, hupper⟩ := h
  rcases le_total 0 (Scalar.wrap (w - v)) with hsign | hsign
  · left
    exact ⟨le_add_of_nonneg_right (mul_nonneg hlower hsign), add_le_add_right (mul_le_of_le_one_left hsign hupper) v⟩
  · right
    refine ⟨add_le_add_right ?_ v, add_le_of_nonpos_right (mul_nonpos_of_nonneg_of_nonpos hlower hsign)⟩
    have hrest := mul_nonpos_of_nonneg_of_nonpos (sub_nonneg.mpr hupper) hsign
    linarith

theorem abs_between_sub_le (h : 0 ≤ scale) : |v + scale * Scalar.wrap (w - v) - v| ≤ scale * Real.pi := by
  rw [add_sub_cancel_left, abs_mul, abs_of_nonneg h]
  exact mul_le_mul_of_nonneg_left (Scalar.abs_wrap_le_pi _) h

/-- What is left of the way, taken from the other end, comes to the same angle. -/
theorem coe_between_symm (h : ((w - v : ℝ) : Real.Angle) ≠ Real.pi) :
    ((w + (1 - scale) * Scalar.wrap (v - w) : ℝ) : Real.Angle) = (v + scale * Scalar.wrap (w - v) : ℝ) := by
  have hback : Scalar.wrap (v - w) = -Scalar.wrap (w - v) := by
    rw [← neg_sub w v]
    exact Scalar.wrap_neg h
  have hsplit : w + (1 - scale) * Scalar.wrap (v - w) = w - Scalar.wrap (w - v) + scale * Scalar.wrap (w - v) := by
    rw [hback]
    ring
  rw [hsplit, Real.Angle.coe_add, Real.Angle.coe_add v, Real.Angle.coe_sub, Scalar.coe_wrap, Real.Angle.coe_sub,
    sub_sub_cancel]

end Between

/-! ### Targets between two angles -/

theorem Assembly.valueOf_between {a : Assembly ℝ} {c : ConstraintId} {r₁ r₂ : Reference} {scale v w : ℝ}
    (hv : a.angleThrough c r₁ = .ok v) (hw : a.angleThrough c r₂ = .ok w) :
    a.valueOf c (.between r₁ r₂ scale) = .ok (v + scale * Scalar.wrap (w - v)) := by
  unfold valueOf
  dsimp only [bind, Except.bind]
  rw [hv, hw]
  rfl

/-- In the run of `ops` from `start` the factory has made `k` to go from `first` to `second`, and at its end one system has
the constraint `c` and, under these names, `d` and `e`. -/
structure Spans (first second : String) (scale : Option ℝ) (k : Combinator ℝ) (ops : List (Operation ℝ))
    (start : Session ℝ) (c d e : ConstraintId) : Prop where
  source : (Recipe.angleDelta first second scale).Serves k first ops start c d
  goal : (Recipe.angleDelta first second scale).Serves k second ops start c e

theorem Act.runs_angleDelta (first second : String) (scale : Option ℝ) (a : Assembly ℝ) :
    Runs (angleDelta first second scale) a fun r _ => ∃ k key₁ key₂, r = .ok k ∧
      k.formula = .between ⟨key₁, first, .angle⟩ ⟨key₂, second, .angle⟩ (scale.getD 1) :=
  runs_traced (runs_after_newReference (runs_after_newReference (runs_pure ⟨_, _, _, rfl, rfl⟩)))
    (writable_making (Call.refusal?_withNumber [first, second] scale))

section Spans

variable {first second : String} {scale : Option ℝ} {k : Combinator ℝ} {ops : List (Operation ℝ)} {c d e : ConstraintId}

/-- Such a target goes from the angle of `d` towards that of `e`. -/
theorem Spans.evaluate {ambient : Config ℝ} {journal : Journal ℝ}
    (h : Spans first second scale k ops ⟨.empty ambient, journal⟩ c d e) :
    (Act.evaluate c (.computed k)).answer (run ops ⟨.empty ambient, journal⟩) =
      .ok ((run ops ⟨.empty ambient, journal⟩).assembly.angle d +
        scale.getD 1 * Scalar.wrap ((run ops ⟨.empty ambient, journal⟩).assembly.angle e -
          (run ops ⟨.empty ambient, journal⟩).assembly.angle d)) := by
  obtain ⟨before, after, -, hanswer⟩ := h.source.made
  obtain ⟨k', key₁, key₂, hk', hformula⟩ :=
    (Act.runs_angleDelta first second scale (run before ⟨.empty ambient, journal⟩).assembly).at_session
  have hmade := hanswer.symm.trans hk'
  cases hmade
  rw [h.source.evaluate_formula, hformula]
  exact Assembly.valueOf_between (h.source.angleThrough key₁) (h.goal.angleThrough key₂)

end Spans

namespace Act

/-- In exact arithmetic, take a target made to go from the angle `v` of one constraint towards the angle `w` of another,
for any owner whose system has both, after any operations.  It has a value, which is `v` at none of the way and `w` at the
whole of it, whole turns apart.  In between, it is at most the same part of half a turn away from `v`, and on the shorter
arc.  Unless the two are opposite, a target made to go back for the rest of the way has the same value, whole turns apart,
for any such owner. -/
theorem evaluate_interpolates (ambient : Config ℝ) (journal : Journal ℝ) (start : Session ℝ)
    (hstart : start = ⟨.empty ambient, journal⟩) (first second : String) (scale : Option ℝ) (k : Combinator ℝ)
    (ops : List (Operation ℝ)) (c d e : ConstraintId) (h : Spans first second scale k ops start c d e)
    (v w part : ℝ) (hv : v = (run ops start).assembly.angle d) (hw : w = (run ops start).assembly.angle e)
    (hpart : part = scale.getD 1) :
    ∃ x, (evaluate c (.computed k)).answer (run ops start) = .ok x ∧
      (part = 0 → (x : Real.Angle) = v) ∧
      (part = 1 → (x : Real.Angle) = w) ∧
      (part ∈ Set.Icc 0 1 → |x - v| ≤ part * Real.pi ∧ OnShorterArc v w x) ∧
      (((w - v : ℝ) : Real.Angle) ≠ Real.pi → ∀ rest k' c', rest.getD 1 = 1 - part →
        Spans second first rest k' ops start c' e d →
        ∃ y, (evaluate c' (.computed k')).answer (run ops start) = .ok y ∧ (y : Real.Angle) = x) := by
  subst hstart
  refine ⟨v + part * Scalar.wrap (w - v), ?_, ?_, ?_, ?_, ?_⟩
  · rw [h.evaluate, hv, hw, hpart]
  · intro hnone
    rw [hnone, zero_mul, add_zero]
  · intro hwhole
    rw [hwhole, one_mul]
    exact (isNearest_wrap v w).1
  · intro hmem
    exact ⟨abs_between_sub_le hmem.1, onShorterArc_between hmem⟩
  · intro hopposite rest k' c' hrest hback
    refine ⟨w + rest.getD 1 * Scalar.wrap (v - w), ?_, ?_⟩
    · rw [hback.evaluate, hv, hw]
    · rw [hrest]
      exact coe_between_symm hopposite

noncomputable def half : ℝ := 1 / (1 + 1)

theorem half_mem : half ∈ Set.Icc 0 1 := by
  unfold half
  constructor
  · norm_num
  · norm_num

/-- Half of the way from the left to straight below. -/
noncomputable def bisector : Combinator ℝ :=
  ⟨.delta "left" "down" half, .between ⟨0, "left", .angle⟩ ⟨1, "down", .angle⟩ half⟩

/-- The other half, back. -/
noncomputable def returning : Combinator ℝ :=
  ⟨.delta "down" "left" (1 - half), .between ⟨2, "down", .angle⟩ ⟨3, "left", .angle⟩ (1 - half)⟩

/-- One constraint lies to the left, another straight below, and a bar is to lie between them. -/
noncomputable def fork : List (Operation ℝ) :=
  [.newSystem none, .node 0 0 0 {}, .node 0 (-1) 0 {}, .node 0 0 (-1) {}, .node 0 1 1 {},
    .pair 0 0 1 { id := some (some "left") }, .pair 0 0 2 { id := some (some "down") },
    .pair 0 0 3 { angle := some (.target (.computed bisector)) }]

/-- Both targets are made first. -/
noncomputable def forked : List (Operation ℝ) :=
  .make (.angleDelta "left" "down" (some half)) :: .make (.angleDelta "down" "left" (some (1 - half))) :: fork

theorem genuine_forked : Genuine [] forked unlaid := by
  have hmade : (Operation.make (Recipe.angleDelta "left" "down" (some half))).makes unlaid = [bisector] := rfl
  refine ⟨List.nil_subset _, ?_⟩
  rw [hmade]
  refine genuine_of_references ?_
  simp [fork, Operation.references, Spec.references, Target.references, Formula.references, bisector, referencesOf]

theorem spans_bisector : Spans "left" "down" (some half) bisector forked unlaid 2 0 1 :=
  ⟨⟨genuine_forked, ⟨[], _, rfl, rfl⟩, ⟨0, by decide, by decide⟩, rfl⟩,
    ⟨genuine_forked, ⟨[], _, rfl, rfl⟩, ⟨0, by decide, by decide⟩, rfl⟩⟩

theorem spans_returning : Spans "down" "left" (some (1 - half)) returning forked unlaid 2 1 0 :=
  ⟨⟨genuine_forked, ⟨[_], _, rfl, rfl⟩, ⟨0, by decide, by decide⟩, rfl⟩,
    ⟨genuine_forked, ⟨[_], _, rfl, rfl⟩, ⟨0, by decide, by decide⟩, rfl⟩⟩

/-- The bar is wanted between the two across the cut, by either target. -/
theorem evaluate_interpolates_forked : ∃ x y : ℝ,
    (evaluate 2 (.computed bisector)).answer (run forked unlaid) = .ok x ∧
    (evaluate 2 (.computed returning)).answer (run forked unlaid) = .ok y ∧
    OnShorterArc Real.pi (-(Real.pi / 2)) x ∧ (y : Real.Angle) = x := by
  obtain ⟨x, hx, -, -, hpart, hback⟩ := evaluate_interpolates _ _ unlaid rfl "left" "down" (some half) bisector forked
    2 0 1 spans_bisector Real.pi (-(Real.pi / 2)) half arg_left.symm arg_below.symm rfl
  have hopposite : ((-(Real.pi / 2) - Real.pi : ℝ) : Real.Angle) ≠ Real.pi := by
    intro hsame
    have hcos := congrArg Real.Angle.cos hsame
    rw [Real.Angle.cos_coe, Real.Angle.cos_coe_pi, Real.cos_sub_pi, Real.cos_neg, Real.cos_pi_div_two] at hcos
    norm_num at hcos
  obtain ⟨y, hy, hsame⟩ := hback hopposite (some (1 - half)) returning 2 rfl spans_returning
  exact ⟨x, y, hx, hy, (hpart half_mem).2, hsame⟩

end Act

end Linkage
