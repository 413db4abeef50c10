import Linkage.Proofs.Deviation
import Linkage.Proofs.Swinging

/-!
# Linkage.Proofs.Freezing — wanting what there is

A constraint that is made with the marker of the current value wants the length or the angle that it has at that moment
(`Constraint.Frozen`).  While its nodes stay where they are, what it wants is met: correcting it moves nothing, for a
triple because the ray at the included angle is the one on which the arm lies (`miss_included`), and for a pair because
its vector lies on the line with its own angle (`correction_own`).  There is one exception.  A pair that settles against
its target takes the angle that it has as the one to lie against, so a correction turns it around (`correctOne_frozen`).
-/

namespace Linkage

section Making

variable {α : Type} [Scalar α]

/-- An option that is not given, or given so that it stands for nothing or for the value there is at the moment. -/
inductive Freezing : Option (Spec α) → Prop where
  | missing : Freezing none
  | absent {spec : Spec α} (h : spec.coerce = .ok .absent) : Freezing (some spec)
  | current {spec : Spec α} (h : spec.coerce = .ok .current) : Freezing (some spec)

/-- What is stored for such an option is nothing, or that value. -/
theorem Freezing.settle {given : Option (Spec α)} (h : Freezing given) {now : Except (Fault α) α}
    {t? : Option (Target α)} (hsettle : (given.getD .absent).settle now = .ok t?) :
    t? = none ∨ ∃ x, now = .ok x ∧ t? = some (.fixed x) := by
  cases h with
  | missing =>
    cases hsettle
    exact Or.inl rfl
  | absent h =>
    unfold Spec.settle at hsettle
    rw [Option.getD_some, h] at hsettle
    cases hsettle
    exact Or.inl rfl
  | current h => exact Or.inr (Spec.fixed_of_settle h hsettle)

/-- The words for the current value stand for it, in any case of their letters. -/
theorem Freezing.word {word : String} (h : Spec.isCurrentMarker word = true) :
    Freezing (some (.marker word : Spec α)) := .current (if_pos h)

namespace Constraint

/-- The targets of a constraint are what it is itself, or missing. -/
structure Frozen (node : NodeId → Node α) (k : Constraint α) : Prop where
  nodup : k.shape.nodes.Nodup
  length : k.lengthTarget = none ∨ ∃ r, k.shape.length node = .ok r ∧ k.lengthTarget = some (.fixed r)
  angle : k.angleTarget = none ∨ k.angleTarget = some (.fixed (k.shape.angle node))

theorem Frozen.distinct {node : NodeId → Node α} {k : Constraint α} (h : k.Frozen node) {first second : NodeId}
    {direction : Direction} (hshape : k.shape = .pair first second direction) : first ≠ second := by
  have hnodup := h.nodup
  rw [hshape] at hnodup
  simpa [Shape.nodes] using hnodup

/-- How constraints are made that freeze what there is. -/
inductive Freezes (node : NodeId → Node α) : Constraint α → Prop where
  | pair {first second : NodeId} {o : PairOptions α} {k : Constraint α} (made : pair node first second o = .ok k)
      (length : Freezing o.length) (angle : Freezing o.angle) : Freezes node k
  | triple {apex ray arm : NodeId} {o : TripleOptions α} {k : Constraint α}
      (made : triple node apex ray arm o = .ok k) (angle : Freezing o.angle) : Freezes node k

theorem frozen_of_pair {node : NodeId → Node α} {first second : NodeId} {o : PairOptions α} {k : Constraint α}
    (made : pair node first second o = .ok k) (length : Freezing o.length) (angle : Freezing o.angle) :
    k.Frozen node := by
  obtain ⟨hne, direction, length?, angle?, -, hlength, hangle, rfl⟩ := exists_of_pair made
  refine ⟨by simpa [Shape.nodes] using hne, length.settle hlength, (angle.settle hangle).imp_right ?_⟩
  rintro ⟨x, hx, rfl⟩
  exact congrArg (some <| Target.fixed ·) (Except.ok.inj hx).symm

theorem frozen_of_triple {node : NodeId → Node α} {apex ray arm : NodeId} {o : TripleOptions α} {k : Constraint α}
    (made : triple node apex ray arm o = .ok k) (angle : Freezing o.angle) : k.Frozen node := by
  obtain ⟨hne, angle?, hangle, rfl⟩ := exists_of_triple made
  refine ⟨?_, Or.inl rfl, (angle.settle hangle).imp_right ?_⟩
  · simp only [not_or] at hne
    simpa [Shape.nodes, and_assoc] using hne
  · rintro ⟨x, hx, rfl⟩
    exact congrArg (some <| Target.fixed ·) (Except.ok.inj hx).symm

theorem Freezes.frozen {node : NodeId → Node α} {k : Constraint α} (h : k.Freezes node) : k.Frozen node := by
  cases h with
  | pair made length angle => exact frozen_of_pair made length angle
  | triple made angle => exact frozen_of_triple made angle

end Constraint

end Making

/-- A constraint stays what it wants to be while its nodes stay in their places. -/
theorem Constraint.Frozen.still {node node' : NodeId → Node ℝ} {k : Constraint ℝ} (h : k.Frozen node)
    (hplace : ∀ n ∈ k.shape.nodes, (node' n).place = (node n).place) : k.Frozen node' := by
  refine ⟨h.nodup, ?_, ?_⟩
  · rw [Shape.length_of_place hplace]
    exact h.length
  · rw [Shape.angle_of_place hplace]
    exact h.angle

/-! ### Pairs -/

section Pair

variable {cfg : Config ℝ} {direction : Direction} {v : Vec ℝ} {e : Ends ℝ} {share : ℝ × ℝ}

/-- There is nothing to take from a vector on the line with its own angle, unless it should lie against it. -/
theorem correction_own (h : direction ≠ .against ∨ v.toComplex = 0) :
    direction.correction v ⟨Real.cos v.angle, Real.sin v.angle⟩ = ⟨0, 0⟩ := by
  by_cases hzero : v.toComplex = 0
  · have hadvance : advance v.toComplex v.angle = 0 := by
      rw [hzero, advance, Complex.zero_re, Complex.zero_im, zero_mul, zero_mul, add_zero]
    rw [correction_eq_zero_iff_projection, hzero, ← norm_eq_zero, ← hzero, norm_projection, hadvance, abs_zero]
  · have hadvance : 0 < advance v.toComplex v.angle := (norm_pos_iff.mpr hzero).trans_eq (advance_own _).symm
    refine correction_eq_zero ?_ (offset_own _)
    cases direction with
    | either => exact Or.inl rfl
    | along => exact Or.inr (hadvance.trans_eq (one_mul _).symm)
    | against => exact absurd rfl (h.resolve_right hzero)

/-- From a vector that should lie against its own angle twice of it is taken. -/
theorem correction_against (v : Vec ℝ) :
    (Direction.against.correction v ⟨Real.cos v.angle, Real.sin v.angle⟩).toComplex = 2 * v.toComplex := by
  have htaken := sub_correction_eq_projection .against v v.angle
  have hside : ¬(Direction.against = .either ∨ 0 < Direction.against.sign * advance v.toComplex v.angle) := by
    rintro (h | h)
    · exact absurd h (by decide)
    · have hadvance : advance v.toComplex v.angle = ‖v.toComplex‖ := advance_own _
      rw [Direction.sign, hadvance] at h
      linarith [norm_nonneg v.toComplex]
  have hown : advance v.toComplex v.angle * bearing v.angle = v.toComplex := advance_arg v.toComplex
  rw [Direction.projection, if_neg hside, hown] at htaken
  linear_combination -htaken

/-- Ends that should lie against their own angle are turned around, or stay where they are if neither can move. -/
theorem anglePass_opposed (hshare : e.shares = .ok share) (hfair : Fair share)
    (hreach : ‖e.vector.toComplex‖ ≤ cfg.reach) : ∃ met e', anglePass cfg .against e.vector.angle e = .ok met e' ∧
      (met = true ↔ |2 * e.vector.x| < cfg.tolerance ∧ |2 * e.vector.y| < cfg.tolerance) ∧
      e.Drifts share (2 * e.vector.toComplex) e' ∧ ‖e'.vector.toComplex‖ = ‖e.vector.toComplex‖ := by
  set d := Direction.against.correction e.vector ⟨Real.cos e.vector.angle, Real.sin e.vector.angle⟩ with hd
  have htwice : d.toComplex = 2 * e.vector.toComplex := correction_against e.vector
  have hdrifts : e.Drifts share (2 * e.vector.toComplex) (e.shift share d) := by
    rw [← htwice]
    exact Ends.drifts_shift share d e
  -- the vector between the ends is turned around if the shares make up a whole, and kept if both are zero
  have hnorm : ‖(e.shift share d).vector.toComplex‖ = ‖e.vector.toComplex‖ := by
    rw [hdrifts.vector]
    rcases hfair.sum with hsum | hsum
    · rw [hsum, Complex.ofReal_one, one_mul, two_mul, sub_add_cancel_left, norm_neg]
    · rw [hsum, Complex.ofReal_zero, zero_mul, sub_zero]
  have hnear : ¬cfg.reach < (e.shift share d).vector.length := by
    rw [Vec.length_eq_norm, hnorm]
    exact not_lt.mpr hreach
  refine ⟨_, _, anglePass_of_near (Scalar.heading_real _) hshare hd.symm hnear, ?_, hdrifts.addBoost, ?_⟩
  · have hx : d.x = 2 * e.vector.x := (congrArg Complex.re htwice).trans (by simp [Vec.toComplex])
    have hy : d.y = 2 * e.vector.y := (congrArg Complex.im htwice).trans (by simp [Vec.toComplex])
    rw [Bool.and_eq_true, decide_eq_true_iff, decide_eq_true_iff, hx, hy]
    exact Iff.rfl
  · rw [Ends.vector_addBoost, hnorm]

end Pair

/-! ### Triples -/

/-- What a vector is off a line can be seen from a line turned with it. -/
theorem offset_add (z : ℂ) (v w : ℝ) : offset z (v + w) = offset ⟨advance z v, offset z v⟩ w := by
  unfold offset advance
  rw [Real.sin_add, Real.cos_add]
  ring

/-- The arm of a triple lies on the ray at the angle that it has. -/
theorem miss_included {k : Corner ℝ} (hlong : 0 < k.rayVector.length) :
    k.miss (Vec.included k.rayVector k.armVector) = 0 := by
  set a := k.rayVector.angle with ha
  -- the vector of the arm as seen from the first ray
  set seen : ℂ := ⟨advance k.armVector.toComplex a, offset k.armVector.toComplex a⟩ with hseen
  have hx : k.rayVector.x = k.rayVector.length * Real.cos a := by
    rw [Vec.length_eq_norm]
    exact (Complex.norm_mul_cos_arg k.rayVector.toComplex).symm
  have hy : k.rayVector.y = k.rayVector.length * Real.sin a := by
    rw [Vec.length_eq_norm]
    exact (Complex.norm_mul_sin_arg k.rayVector.toComplex).symm
  have hincluded : Vec.included k.rayVector k.armVector = Complex.arg seen := by
    rw [← Complex.arg_real_mul seen hlong]
    refine congrArg Complex.arg (Complex.ext ?_ ?_)
    · rw [Complex.re_ofReal_mul, hseen, advance, Vec.toComplex]
      change k.rayVector.x * k.armVector.x + k.rayVector.y * k.armVector.y = _
      rw [hx, hy]
      ring
    · rw [Complex.im_ofReal_mul, hseen, offset, Vec.toComplex]
      change k.rayVector.x * k.armVector.y - k.rayVector.y * k.armVector.x = _
      rw [hx, hy]
      ring
  rw [hincluded, Corner.miss, Corner.rayAngle, ← ha, offset_add, ← hseen]
  exact offset_own seen

/-- Swinging the arm of a triple to the angle that it has counts and does nothing else. -/
theorem rayPass_included {cfg : Config ℝ} {k : Corner ℝ} (hlong : Scalar.rootEpsilon < k.rayVector.length)
    (hapex : k.apex.Heavy) (harm : k.arm.Heavy) (htolerance : 0 < cfg.tolerance) :
    rayPass cfg (Vec.included k.rayVector k.armVector) k = .ok true { k with arm := k.arm.addBoost } := by
  obtain ⟨share, hshare⟩ : ∃ share, k.armShare = .ok share := Corner.exists_armShare hapex harm
  have hmiss := miss_included (Scalar.Signs.rootEpsilon_pos.trans hlong)
  have hcorrection : k.correction (Vec.included k.rayVector k.armVector) = ⟨0, 0⟩ := by
    rw [Corner.correction, hmiss, neg_zero, zero_mul, zero_mul]
  have hmet : k.met (Vec.included k.rayVector k.armVector) cfg.tolerance = true := by
    rw [Corner.met_iff, hmiss, zero_mul, zero_mul, abs_zero]
    exact ⟨htolerance, htolerance⟩
  rw [rayPass_eq hlong hshare, hmet, hcorrection, mul_zero, sub_zero, sub_zero]
  rfl

/-! ### Corrections -/

namespace Act

variable {a : Assembly ℝ} {c : ConstraintId} {first second apex ray arm : NodeId} {direction : Direction}

/-- A frozen pair is corrected as its angle pass does it, if that leaves its length. -/
theorem runs_correctOne_frozen_pair (hfrozen : (a.constraint c).Frozen a.node)
    (hshape : (a.constraint c).shape = .pair first second direction) (htolerance : 0 < (a.configOf c).tolerance)
    {angle? : Option ℝ} (hangle : (a.constraint c).angleTarget = angle?.map .fixed) {met : Bool} {e : Ends ℝ}
    (hturn : Pass.toward (anglePass (a.configOf c) direction) angle? ⟨a.node first, a.node second⟩ = .ok met e)
    (hkept : e.vector.length = ((a.node first).vectorTo (a.node second)).length) : Runs (correctOne c) a fun r b =>
      r = .ok met ∧ b.node = e.put first second a.node := by
  have hne := hfrozen.distinct hshape
  obtain ⟨length?, hlength, hstretch⟩ : ∃ length?, (a.constraint c).lengthTarget = length?.map .fixed ∧
      Pass.toward (lengthPass (a.configOf c)) length? e = .ok true e := by
    rcases hfrozen.length with hnone | ⟨r, hr, hsome⟩
    · exact ⟨none, hnone, rfl⟩
    · rw [hshape] at hr
      refine ⟨some r, hsome, lengthPass_of_near ?_⟩
      rw [hkept, ← Except.ok.inj hr, sub_self, Scalar.abs_real, abs_zero]
      exact htolerance
  exact runs_correctOne_toward hshape hne (runs_targetAngle_fixed_node hangle) hlength hturn hstretch

/-- A pair that does not settle against its target has what it wants then. -/
theorem runs_correctOne_frozen_along (hfrozen : (a.constraint c).Frozen a.node)
    (hshape : (a.constraint c).shape = .pair first second direction) (hfirst : (a.node first).Heavy)
    (hsecond : (a.node second).Heavy) (htolerance : 0 < (a.configOf c).tolerance)
    (hreach : ((a.node first).vectorTo (a.node second)).length ≤ (a.configOf c).reach)
    (hside : direction ≠ .against ∨ (a.constraint c).angleTarget = none ∨ (a.node first).place = (a.node second).place) :
    Runs (correctOne c) a fun r b => r = .ok true ∧ ∀ n, (b.node n).place = (a.node n).place := by
  set e : Ends ℝ := ⟨a.node first, a.node second⟩ with he
  -- the angle pass finds nothing to take from a vector that has its own bearing
  obtain ⟨angle?, e', hangle, hturn, hfirst', hsecond'⟩ : ∃ angle? e',
      (a.constraint c).angleTarget = angle?.map .fixed ∧
      Pass.toward (anglePass (a.configOf c) direction) angle? e = .ok true e' ∧
      e'.first.place = e.first.place ∧ e'.second.place = e.second.place := by
    rcases hfrozen.angle with hnone | hsome
    · exact ⟨none, e, hnone, rfl, rfl, rfl⟩
    · have hown : (a.constraint c).shape.angle a.node = e.vector.angle := by
        rw [hshape]
        rfl
      have hside' : direction ≠ .against ∨ e.vector.toComplex = 0 := by
        refine hside.imp_right fun h => ?_
        have hplace := h.resolve_left fun hnone => nomatch hnone.symm.trans hsome
        exact sub_eq_zero.mpr hplace.symm
      obtain ⟨share, hshare⟩ : ∃ share, e.shares = .ok share := Ends.exists_shares hfirst hsecond
      rw [hown] at hsome
      exact ⟨some e.vector.angle, _, hsome, anglePass_of_uncorrected hshare (correction_own hside')
        (e.vector.length_eq_norm.symm.trans_le hreach) htolerance, Node.place_addBoost _, Node.place_addBoost _⟩
  have hkept : e'.vector.length = e.vector.length := by
    rw [Vec.length_eq_norm, Ends.vector_of_place hfirst' hsecond', ← Vec.length_eq_norm]
  refine (runs_correctOne_frozen_pair hfrozen hshape htolerance hangle hturn hkept).mono ?_
  rintro _ b ⟨rfl, hnode⟩
  refine ⟨rfl, fun n => ?_⟩
  rw [hnode]
  exact Ends.place_put hfirst' hsecond' n

/-- One that settles against its target is turned around. -/
theorem runs_correctOne_frozen_against (hfrozen : (a.constraint c).Frozen a.node)
    (hshape : (a.constraint c).shape = .pair first second .against) (hangle : (a.constraint c).angleTarget.isSome)
    (hfirst : (a.node first).Heavy) (hsecond : (a.node second).Heavy) (htolerance : 0 < (a.configOf c).tolerance)
    {e : Ends ℝ} (he : e = ⟨a.node first, a.node second⟩) (hreach : e.vector.length ≤ (a.configOf c).reach) :
    Runs (correctOne c) a fun r b =>
      (∃ met, r = .ok met ∧
        (met = true ↔ |2 * e.vector.x| < (a.configOf c).tolerance ∧ |2 * e.vector.y| < (a.configOf c).tolerance)) ∧
      (∀ n, n ≠ first → n ≠ second → b.node n = a.node n) ∧
      (e.first.base = false ∨ e.second.base = false →
        ((b.node first).vectorTo (b.node second)).toComplex = -e.vector.toComplex) ∧
      (e.first.base = true → e.second.base = true → ∀ n, (b.node n).place = (a.node n).place) := by
  have hne := hfrozen.distinct hshape
  have hown : (a.constraint c).shape.angle a.node = e.vector.angle := by
    rw [hshape, he]
    rfl
  have hsome : (a.constraint c).angleTarget = some (.fixed e.vector.angle) := by
    rcases hfrozen.angle with hnone | hsome
    · rw [hnone] at hangle
      cases hangle
    · rw [hsome, hown]
  have hheavy : e.first.Heavy ∧ e.second.Heavy := by
    rw [he]
    exact ⟨hfirst, hsecond⟩
  -- the vector is turned around at its own length, so that the length pass has nothing to do after it
  obtain ⟨share, hshare⟩ : ∃ share, e.shares = .ok share := Ends.exists_shares hheavy.1 hheavy.2
  obtain ⟨met, e', hpass, hmet, hdrifts, hnorm⟩ :=
    anglePass_opposed hshare (Ends.fair hheavy.1 hheavy.2 hshare) (e.vector.length_eq_norm.symm.trans_le hreach)
  have hkept : e'.vector.length = e.vector.length := by rw [Vec.length_eq_norm, hnorm, ← Vec.length_eq_norm]
  have htarget : (a.constraint c).angleTarget = (some e.vector.angle).map .fixed := hsome
  rw [he] at hpass hkept htarget
  refine (runs_correctOne_frozen_pair hfrozen hshape htolerance htarget hpass hkept).mono ?_
  rintro _ b ⟨rfl, hnode⟩
  refine ⟨⟨met, rfl, hmet⟩, fun n hfirst hsecond => ?_, fun hfree => ?_, fun hbase hbase' n => ?_⟩
  · rw [hnode, Ends.put_other hfirst hsecond]
  · have hvector := hdrifts.vector
    rw [Ends.shares_sum hheavy.1 hheavy.2 hfree hshare, Complex.ofReal_one, one_mul, two_mul, sub_add_cancel_left]
      at hvector
    rw [hnode, Ends.put_first hne, Ends.put_second]
    exact hvector
  · have hspared := Ends.spared hshare
    have hfirst' := hdrifts.first
    have hsecond' := hdrifts.second
    rw [hspared.first hbase, Complex.ofReal_zero, zero_mul, add_zero, he] at hfirst'
    rw [hspared.second hbase', Complex.ofReal_zero, zero_mul, sub_zero, he] at hsecond'
    rw [hnode]
    exact Ends.place_put hfirst' hsecond' n

/-- A triple without a wanted angle, or with a first ray too short to measure one against, is left alone. -/
theorem runs_correctOne_idle_triple {α : Type} [Scalar α] {a : Assembly α} {c : ConstraintId} {apex ray arm : NodeId}
    (hshape : (a.constraint c).shape = .triple apex ray arm)
    (hidle : (a.constraint c).angleTarget = none ∨ (⟨a.node apex, a.node ray, a.node arm⟩ : Corner α).isFlat) :
    Runs (correctOne c) a fun r b => r = .ok true ∧ b = a := by
  refine runs_read ?_
  rw [hshape]
  dsimp only
  cases hangle : (a.constraint c).angleTarget with
  | none => exact runs_pure ⟨rfl, rfl⟩
  | some t =>
    have hflat := hidle.resolve_left (by rw [hangle]; exact Option.some_ne_none t)
    dsimp only
    rw [if_pos hflat]
    exact runs_pure ⟨rfl, rfl⟩

/-- A frozen triple has what it wants. -/
theorem runs_correctOne_frozen_triple (hfrozen : (a.constraint c).Frozen a.node)
    (hshape : (a.constraint c).shape = .triple apex ray arm) (hapex : (a.node apex).Heavy) (harm : (a.node arm).Heavy)
    (htolerance : 0 < (a.configOf c).tolerance) : Runs (correctOne c) a fun r b =>
      r = .ok true ∧ ∀ n, (b.node n).place = (a.node n).place := by
  set k : Corner ℝ := ⟨a.node apex, a.node ray, a.node arm⟩ with hk
  by_cases hidle : (a.constraint c).angleTarget = none ∨ k.isFlat
  · refine (runs_correctOne_idle_triple hshape hidle).mono ?_
    rintro _ _ ⟨rfl, rfl⟩
    exact ⟨rfl, fun _ => rfl⟩
  · obtain ⟨hsome, hflat⟩ := not_or.mp hidle
    have hangle := hfrozen.angle.resolve_left hsome
    have hown : (a.constraint c).shape.angle a.node = Vec.included k.rayVector k.armVector := by
      rw [hshape]
      rfl
    have hlong : Scalar.rootEpsilon < k.rayVector.length := not_le.mp fun h => hflat (decide_eq_true h)
    rw [hown] at hangle
    refine (runs_correctOne_triple hshape hangle hflat (rayPass_included hlong hapex harm htolerance)).mono ?_
    rintro _ b ⟨rfl, hnode⟩
    refine ⟨rfl, fun n => ?_⟩
    by_cases hn : n = arm
    · rw [hnode, hn, Corner.put_arm]
      exact Node.place_addBoost _
    · rw [hnode, Corner.put_other rfl rfl hn]

/-- It stays so while its nodes stay in their places. -/
theorem rests_of_frozen_triple (hfrozen : (a.constraint c).Frozen a.node)
    (hshape : (a.constraint c).shape = .triple apex ray arm) (hapex : (a.node apex).Heavy) (harm : (a.node arm).Heavy)
    (htolerance : 0 < (a.configOf c).tolerance) : a.Rests c := by
  intro made b _ h
  have hconfig : b.configOf c = a.configOf c := h.samePlan.configOf c
  have hfrozen' := hfrozen.still fun n _ => h.place n
  rw [← h.constraint c] at hfrozen' hshape
  rw [← hconfig] at htolerance
  refine ((runs_correctOne_frozen_triple hfrozen' hshape ((h.worked apex).heavy hapex) ((h.worked arm).heavy harm)
    htolerance).and (keeps_correctOne (List.mem_singleton_self c) b)).mono ?_
  rintro _ d ⟨⟨rfl, hplace⟩, htended⟩
  exact ⟨rfl, htended.toSameDesign, hplace, fun n => (htended.handled n).worked⟩

/-- In exact arithmetic, for a constraint that was made to want what it was, with a length and an angle that were not
given or given as the current ones, and for nodes that have masses and the places that they had then, within reach: a
correction answers that the constraint was met and moves no node, unless the constraint is a pair that settles against
its target, wants an angle and has its ends apart.  Such a pair is turned around, if one of its ends can move, and that
is accepted only if both coordinates of its vector change by less than the tolerance. -/
theorem correctOne_frozen (st : Session ℝ) (c : ConstraintId) (node : NodeId → Node ℝ) (k : Constraint ℝ)
    (hmade : k.Freezes node) (hstored : (st.assembly.constraint c).shape = k.shape ∧
      (st.assembly.constraint c).lengthTarget = k.lengthTarget ∧ (st.assembly.constraint c).angleTarget = k.angleTarget)
    (hplace : ∀ n ∈ k.shape.nodes, (st.assembly.node n).place = (node n).place)
    (hheavy : ∀ n ∈ k.shape.nodes, (st.assembly.node n).Heavy) (cfg : Config ℝ) (hcfg : cfg = st.assembly.configOf c)
    (htolerance : 0 < cfg.tolerance) (hreach : ∀ r, k.shape.length node = .ok r → r ≤ cfg.reach)
    (node' : NodeId → Node ℝ) (hnode' : node' = ((correctOne c).after st).assembly.node) :
    ((∀ first second, k.shape = .pair first second .against →
        k.angleTarget = none ∨ (node first).place = (node second).place) →
      (correctOne c).answer st = .ok true ∧ ∀ n, (node' n).place = (st.assembly.node n).place) ∧
    (∀ first second, k.shape = .pair first second .against → k.angleTarget.isSome → ∀ e : Ends ℝ,
      e = ⟨st.assembly.node first, st.assembly.node second⟩ →
      (∃ met, (correctOne c).answer st = .ok met ∧
        (met = true ↔ |2 * e.vector.x| < cfg.tolerance ∧ |2 * e.vector.y| < cfg.tolerance)) ∧
      (∀ n, n ≠ first → n ≠ second → node' n = st.assembly.node n) ∧
      (e.first.base = false ∨ e.second.base = false →
        ((node' first).vectorTo (node' second)).toComplex = -e.vector.toComplex) ∧
      (e.first.base = true → e.second.base = true → ∀ n, (node' n).place = (st.assembly.node n).place)) := by
  obtain ⟨hshape, hlength, hangle⟩ := hstored
  -- what was frozen at the making is frozen now, because the nodes are where they were then
  have hfrozen : (st.assembly.constraint c).Frozen st.assembly.node := by
    obtain ⟨hnodup, hlengths, hangles⟩ := hmade.frozen.still hplace
    refine ⟨?_, ?_, ?_⟩
    · rwa [hshape]
    · rwa [hshape, hlength]
    · rwa [hshape, hangle]
  have hwithin {first second : NodeId} {direction : Direction} (hpair : k.shape = .pair first second direction) :
      ((st.assembly.node first).vectorTo (st.assembly.node second)).length ≤ (st.assembly.configOf c).reach := by
    rw [hpair] at hplace hreach
    rw [Node.vectorTo_of_place (hplace first (by simp [Shape.nodes])) (hplace second (by simp [Shape.nodes])), ← hcfg]
    exact hreach _ rfl
  rw [hcfg] at htolerance
  constructor
  · intro hside
    rw [hnode']
    cases hkind : k.shape with
    | pair first second direction =>
      have hfirst : (st.assembly.node first).Heavy := hheavy first (by simp [hkind, Shape.nodes])
      have hsecond : (st.assembly.node second).Heavy := hheavy second (by simp [hkind, Shape.nodes])
      rw [hkind] at hshape hplace
      refine (runs_correctOne_frozen_along hfrozen hshape hfirst hsecond htolerance (hwithin hkind) ?_).at_session
      by_cases hagainst : direction = .against
      · refine Or.inr ?_
        rw [hangle, hplace first (by simp [Shape.nodes]), hplace second (by simp [Shape.nodes])]
        exact hside first second (by rw [hkind, hagainst])
      · exact Or.inl hagainst
    | triple apex ray arm =>
      have hapex : (st.assembly.node apex).Heavy := hheavy apex (by simp [hkind, Shape.nodes])
      have harm : (st.assembly.node arm).Heavy := hheavy arm (by simp [hkind, Shape.nodes])
      exact (runs_correctOne_frozen_triple hfrozen (hshape.trans hkind) hapex harm htolerance).at_session
  · intro first second hpair hsome e he
    have hfirst : (st.assembly.node first).Heavy := hheavy first (by simp [hpair, Shape.nodes])
    have hsecond : (st.assembly.node second).Heavy := hheavy second (by simp [hpair, Shape.nodes])
    have hwithin' : e.vector.length ≤ (st.assembly.configOf c).reach := by
      rw [he]
      exact hwithin hpair
    rw [hnode', hcfg]
    exact (runs_correctOne_frozen_against hfrozen (hshape.trans hpair) (by rwa [hangle]) hfirst hsecond htolerance he
      hwithin').at_session

/-- Options of a pair that is to want the length and the angle that it has, on one side. -/
def frozenOptions (sign : Int) : PairOptions ℝ :=
  { length := some (.marker "const"), angle := some (.marker "const"), direction := some (.int sign) }

noncomputable def frozenBar (sign : Int) : Session ℝ :=
  run [.newConfig ⟨.int 1, 1, 1⟩, .newSystem (some 0), .node 0 0 0 { base := some true, mass := some none },
    .node 0 1 0 { mass := some none }, .pair 0 0 1 (frozenOptions sign)]
    ⟨.empty ⟨.int 1, 1, 1⟩, .empty Level.warning⟩

/-- A bar of length one along the x-axis, on a base node. -/
structure UnitBar (node : NodeId → Node ℝ) : Prop where
  foot : node 0 = ⟨0, 0, true, 1, none, 0⟩
  tip : node 1 = ⟨1, 0, false, 1, none, 0⟩

namespace UnitBar

variable {node : NodeId → Node ℝ}

theorem heavy (h : UnitBar node) : ∀ n ∈ [0, 1], (node n).Heavy := by
  intro n hn
  obtain rfl | rfl : n = 0 ∨ n = 1 := by simpa using hn
  · rw [h.foot]
    exact Or.inl rfl
  · rw [h.tip]
    exact Or.inr ⟨zero_lt_one, le_refl 0⟩

theorem vector (h : UnitBar node) : (node 0).vectorTo (node 1) = ⟨1, 0⟩ := by
  rw [h.foot, h.tip, Node.vectorTo, sub_zero, sub_zero]

theorem within (h : UnitBar node) : ∀ r, (Shape.pair 0 1 .along).length node = .ok r → r ≤ 1 := by
  intro r hr
  rw [← Except.ok.inj hr, h.vector, Vec.length_eq_of_sq zero_le_one (by norm_num)]

end UnitBar

/-- Along its own angle a bar is in order. -/
theorem correctOne_frozen_bar : (correctOne 0).answer (frozenBar 1) = .ok true ∧
    ∀ n, (((correctOne 0).after (frozenBar 1)).assembly.node n).place = ((frozenBar 1).assembly.node n).place := by
  have hmade : Constraint.pair (frozenBar 1).assembly.node 0 1 (frozenOptions 1) =
      .ok { (frozenBar 1).assembly.constraint 0 with owner := none } := rfl
  have hbar : UnitBar (frozenBar 1).assembly.node := ⟨rfl, rfl⟩
  refine (correctOne_frozen (frozenBar 1) 0 (frozenBar 1).assembly.node _ (.pair hmade (.word (by decide))
    (.word (by decide))) ⟨rfl, rfl, rfl⟩ (fun _ _ => rfl) hbar.heavy ⟨.int 1, 1, 1⟩ rfl zero_lt_one hbar.within _ rfl).1 ?_
  rintro first second ⟨⟩

/-- A bar that is to lie against its own angle is turned around by a correction, and that does not count as met. -/
theorem frozen_turned : (∃ k, Constraint.pair (frozenBar (-1)).assembly.node 0 1 (frozenOptions (-1)) = .ok k ∧
      (frozenBar (-1)).assembly.constraint 0 = { k with owner := some 0 }) ∧
    (∀ n ∈ [0, 1], ((frozenBar (-1)).assembly.node n).Heavy) ∧
    (((frozenBar (-1)).assembly.node 0).vectorTo ((frozenBar (-1)).assembly.node 1)).length ≤
      ((frozenBar (-1)).assembly.configOf 0).reach ∧
    (correctOne 0).answer (frozenBar (-1)) = .ok false ∧
    ¬∀ n, (((correctOne 0).after (frozenBar (-1))).assembly.node n).place = ((frozenBar (-1)).assembly.node n).place := by
  have hmade : Constraint.pair (frozenBar (-1)).assembly.node 0 1 (frozenOptions (-1)) =
      .ok { (frozenBar (-1)).assembly.constraint 0 with owner := none } := rfl
  have hbar : UnitBar (frozenBar (-1)).assembly.node := ⟨rfl, rfl⟩
  obtain ⟨hnodup, hlength, hangle⟩ := Constraint.frozen_of_pair hmade (.word (by decide)) (.word (by decide))
  obtain ⟨⟨met, hanswer, hmet⟩, -, hturned, -⟩ := (runs_correctOne_frozen_against (a := (frozenBar (-1)).assembly) (c := 0)
    (e := ⟨(frozenBar (-1)).assembly.node 0, (frozenBar (-1)).assembly.node 1⟩) ⟨hnodup, hlength, hangle⟩ rfl rfl
    (hbar.heavy 0 (by simp)) (hbar.heavy 1 (by simp)) zero_lt_one rfl (hbar.within _ rfl)).at_session
  have hends : (⟨(frozenBar (-1)).assembly.node 0, (frozenBar (-1)).assembly.node 1⟩ : Ends ℝ).vector = ⟨1, 0⟩ :=
    hbar.vector
  have htolerance : ((frozenBar (-1)).assembly.configOf 0).tolerance = 1 := rfl
  rw [hends, htolerance] at hmet
  rw [hends] at hturned
  refine ⟨⟨_, hmade, rfl⟩, hbar.heavy, hbar.within _ rfl, ?_, fun hstill => ?_⟩
  · have hunmet : met ≠ true := fun h => by
      have hnear : |2 * (1 : ℝ)| < 1 := (hmet.mp h).1
      rw [mul_one, abs_two] at hnear
      linarith
    rw [hanswer, Bool.eq_false_iff.mpr hunmet]
  · have hturned := hturned (Or.inr rfl)
    rw [Node.vectorTo_of_place (hstill 0) (hstill 1), hbar.vector] at hturned
    have hreal : (1 : ℝ) = -1 := congrArg Complex.re hturned
    linarith

end Act

end Linkage
