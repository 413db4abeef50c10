import Linkage.Proofs.Projection
import Linkage.Proofs.Settled

/-!
# Linkage.Proofs.Stretching — one length, two sweeps

A fixed length, and the bounds of a length, want something of a pair that depends on the length that it has
(`Target.Wants`).  It is wanted again once it is there, and lengths that differ little want lengths that differ no more
(`Retraction`).  So a pair alone in its system, however it starts, is stretched by the first sweep if it is off at all, and
found in order by the second (`correct_stretches`).  A pair too short to have a direction is off by what it was long at
most, on either side, and that is too little to be noticed (`Stretched.near`).
-/

namespace Linkage

/-! ### Wanted lengths -/

/-- What is wanted of a length, as a function of the length. -/
structure Retraction (f : ℝ → ℝ) : Prop where
  nonneg : ∀ r, 0 ≤ r → 0 ≤ f r
  /-- What is wanted is left as it is. -/
  again : ∀ r, f (f r) = f r
  close : ∀ r s, |f r - f s| ≤ |r - s|

/-- A target that does not look beyond its own pair: a length, or the present one within bounds. -/
inductive Target.Wants : Target ℝ → (ℝ → ℝ) → Prop where
  | fixed (length : ℝ) (h : 0 ≤ length) : Wants (.fixed length) fun _ => length
  | atLeast (name : Label ℝ) (least : ℝ) : Wants (.computed ⟨name, .ownLengthMin least⟩) fun r => max r least
  | atMost (name : Label ℝ) (most : ℝ) (h : 0 ≤ most) :
      Wants (.computed ⟨name, .ownLengthMax most⟩) fun r => min r most
  | range (name : Label ℝ) (least most : ℝ) (hleast : 0 ≤ least) (h : least ≤ most) :
      Wants (.computed ⟨name, .ownLengthRange least most⟩) fun r => min (max r least) most

theorem Scalar.max_real (a b : ℝ) : Scalar.max a b = Max.max a b := by
  unfold Scalar.max
  split
  case isTrue h => exact (max_eq_right h.le).symm
  case isFalse h => exact (max_eq_left (not_lt.mp h)).symm

theorem Scalar.min_real (a b : ℝ) : Scalar.min a b = Min.min a b := by
  unfold Scalar.min
  split
  case isTrue h => exact (min_eq_right h.le).symm
  case isFalse h => exact (min_eq_left (not_lt.mp h)).symm

theorem abs_min_sub_min_le_abs (r s most : ℝ) : |min r most - min s most| ≤ |r - s| := by
  have h := abs_min_sub_min_le_max r most s most
  rwa [sub_self, abs_zero, max_eq_left (abs_nonneg _)] at h

theorem Target.Wants.retraction {t : Target ℝ} {f : ℝ → ℝ} (h : t.Wants f) : Retraction f := by
  cases h with
  | fixed length h => exact ⟨fun _ _ => h, fun _ => rfl, fun r s => by simp⟩
  | atLeast name least =>
    exact ⟨fun r hr => hr.trans (le_max_left r least), fun r => max_eq_left (le_max_right r least),
      fun r s => abs_max_sub_max_le_abs r s least⟩
  | atMost name most h =>
    exact ⟨fun r hr => le_min hr h, fun r => min_eq_left (min_le_right r most),
      fun r s => abs_min_sub_min_le_abs r s most⟩
  | range name least most hleast h =>
    refine ⟨fun r _ => ?_, fun r => ?_, fun r s => ?_⟩
    · exact le_min (hleast.trans (le_max_right r least)) (hleast.trans h)
    · rw [max_eq_left (le_min (le_max_right r least) h), min_eq_left (min_le_right _ most)]
    · exact (abs_min_sub_min_le_abs _ _ most).trans (abs_max_sub_max_le_abs r s least)

/-- A length near what is wanted is as near, up to a factor of two, to what is wanted of it. -/
theorem Retraction.abs_sub_le_two_mul {f : ℝ → ℝ} (hf : Retraction f) (r s : ℝ) : |f s - s| ≤ 2 * |s - f r| := by
  have hclose := hf.close s (f r)
  rw [hf.again] at hclose
  calc |f s - s| ≤ |f s - f r| + |f r - s| := abs_sub_le _ _ _
    _ ≤ |s - f r| + |s - f r| := add_le_add hclose (abs_sub_comm _ _).le
    _ = 2 * |s - f r| := (two_mul _).symm

/-! ### Stretched ends -/

theorem Vec.length_nonneg (v : Vec ℝ) : 0 ≤ v.length := Real.sqrt_nonneg _

theorem Scalar.pos_of_epsilon_lt {r : ℝ} (h : Scalar.epsilon < r) : 0 < r := Signs.epsilon_pos.trans h

/-- The centre of mass of two nodes. -/
noncomputable def Ends.centroid (e : Ends ℝ) : ℂ :=
  (e.first.mass * e.first.place + e.second.mass * e.second.place) / (e.first.mass + e.second.mass : ℝ)

/-- Ends are brought to the distance `target` along a unit vector, which has the direction of the vector between them if
that is long enough to have one. -/
structure Ends.Stretched (target : ℝ) (e e' : Ends ℝ) : Prop where
  vector : ∃ u : ℂ, ‖u‖ = 1 ∧ (Scalar.epsilon < e.vector.length → e.vector.length * u = e.vector.toComplex) ∧
    e'.vector.toComplex = e.vector.toComplex + (target - e.vector.length : ℝ) * u
  /-- What one end gains the other loses, in proportion to their masses. -/
  centroid : e.first.base = false → e.second.base = false → e'.centroid = e.centroid

/-- The centre of mass stays where the ends move against each other in proportion to the mass of the other. -/
theorem Ends.centroid_of_moved {e e' : Ends ℝ} {d d' : ℂ} (hmass : e'.first.mass = e.first.mass)
    (hmass' : e'.second.mass = e.second.mass) (hfirst : e'.first.place = e.first.place + d)
    (hsecond : e'.second.place = e.second.place + d') (hbalance : e.first.mass * d + e.second.mass * d' = 0) :
    e'.centroid = e.centroid := by
  have hmoment : e.first.mass * (e.first.place + d) + e.second.mass * (e.second.place + d') =
      e.first.mass * e.first.place + e.second.mass * e.second.place := by
    linear_combination hbalance
  unfold Ends.centroid
  rw [hmass, hmass', hfirst, hsecond, hmoment]

namespace Ends.Stretched

variable {target : ℝ} {e e' : Ends ℝ}

/-- A vector that has a direction is scaled. -/
theorem vector_eq (h : e.Stretched target e') (hlong : Scalar.epsilon < e.vector.length) :
    e'.vector.toComplex = (target / e.vector.length : ℝ) * e.vector.toComplex := by
  obtain ⟨u, -, hu, hvector⟩ := h.vector
  have hpos := Scalar.pos_of_epsilon_lt hlong
  rw [hvector, ← hu hlong, ← mul_assoc, ← Complex.ofReal_mul, div_mul_cancel₀ _ hpos.ne', ← add_mul,
    ← Complex.ofReal_add, add_sub_cancel]

theorem length_eq (h : e.Stretched target e') (hlong : Scalar.epsilon < e.vector.length) (htarget : 0 ≤ target) :
    e'.vector.length = target := by
  have hpos := Scalar.pos_of_epsilon_lt hlong
  rw [Vec.length_eq_norm, h.vector_eq hlong, norm_mul, ← Vec.length_eq_norm, Complex.norm_real,
    Real.norm_of_nonneg (div_nonneg htarget hpos.le), div_mul_cancel₀ _ hpos.ne']

theorem angle_eq (h : e.Stretched target e') (hlong : Scalar.epsilon < e.vector.length) (htarget : 0 < target) :
    e'.vector.angle = e.vector.angle := by
  have hpos := Scalar.pos_of_epsilon_lt hlong
  change Complex.arg e'.vector.toComplex = Complex.arg e.vector.toComplex
  rw [h.vector_eq hlong]
  exact Complex.arg_real_mul _ (div_pos htarget hpos)

/-- Whatever the direction, the wanted length is missed by twice what the ends were apart at most. -/
theorem near (h : e.Stretched target e') (hshorter : e.vector.length ≤ target) :
    |e'.vector.length - target| ≤ 2 * e.vector.length := by
  obtain ⟨u, hunit, -, hvector⟩ := h.vector
  have hstep : ‖((target - e.vector.length : ℝ) : ℂ) * u‖ = target - e.vector.length := by
    rw [norm_mul, hunit, mul_one, Complex.norm_real, Real.norm_of_nonneg (sub_nonneg.mpr hshorter)]
  -- the new vector is a step of known length away from the old one
  have hchange := abs_norm_sub_norm_le e'.vector.toComplex (((target - e.vector.length : ℝ) : ℂ) * u)
  rw [hstep, hvector, add_sub_cancel_right, ← hvector, ← Vec.length_eq_norm, ← Vec.length_eq_norm] at hchange
  have hbounds := abs_le.mp hchange
  exact abs_le.mpr ⟨by linarith, by linarith [Vec.length_nonneg e.vector]⟩

/-- Ends that are stretched to what is wanted of them have what is wanted then. -/
theorem in_order {f : ℝ → ℝ} (h : e.Stretched (f e.vector.length) e') (hf : Retraction f) {tolerance : ℝ}
    (htolerance : 4 * Scalar.epsilon < tolerance) (hfar : tolerance ≤ |f e.vector.length - e.vector.length|) :
    |f e'.vector.length - e'.vector.length| < tolerance := by
  have hepsilon : (0 : ℝ) < Scalar.epsilon := Scalar.Signs.epsilon_pos
  have hnonneg : 0 ≤ e.vector.length := Vec.length_nonneg e.vector
  refine (hf.abs_sub_le_two_mul e.vector.length e'.vector.length).trans_lt ?_
  by_cases hlong : Scalar.epsilon < e.vector.length
  · rw [h.length_eq hlong (hf.nonneg _ hnonneg), sub_self, abs_zero]
    linarith
  · -- ends this near each other can only be off because they should be farther apart
    have hshorter : e.vector.length ≤ f e.vector.length := by
      by_contra hlonger
      rw [abs_of_neg (by linarith)] at hfar
      linarith [hf.nonneg _ hnonneg]
    linarith [h.near hshorter]

/-- Ends that stay in their places stay stretched. -/
theorem still {v w v' w' : Node ℝ} (h : e.Stretched target ⟨v, w⟩) (hv : v'.place = v.place ∧ v'.mass = v.mass)
    (hw : w'.place = w.place ∧ w'.mass = w.mass) : e.Stretched target ⟨v', w'⟩ := by
  have hvector : (⟨v', w'⟩ : Ends ℝ).vector.toComplex = (⟨v, w⟩ : Ends ℝ).vector.toComplex :=
    Ends.vector_of_place hv.1 hw.1
  refine ⟨?_, fun hfree hfree' => ?_⟩
  · rw [hvector]
    exact h.vector
  · rw [← h.centroid hfree hfree']
    unfold Ends.centroid
    dsimp only
    rw [hv.1, hv.2, hw.1, hw.2]

end Ends.Stretched

/-! ### Ends at the start of a sweep -/

noncomputable def Ends.clearBoost (e : Ends ℝ) : Ends ℝ := ⟨e.first.clearBoost, e.second.clearBoost⟩

namespace Ends

variable {e : Ends ℝ} {cfg : Config ℝ} {target : ℝ}

theorem toComplex_vector_clearBoost (e : Ends ℝ) : e.clearBoost.vector.toComplex = e.vector.toComplex :=
  vector_of_place e.first.place_clearBoost e.second.place_clearBoost

theorem length_vector_clearBoost (e : Ends ℝ) : e.clearBoost.vector.length = e.vector.length := by
  rw [Vec.length_eq_norm, e.toComplex_vector_clearBoost, ← Vec.length_eq_norm]

/-- Ends with masses can be moved. -/
theorem mobile_clearBoost (hfirst : e.first.base = false → 0 < e.first.mass)
    (hsecond : e.second.base = false → 0 < e.second.mass) (hfree : e.first.base = false ∨ e.second.base = false) :
    e.clearBoost.Mobile := by
  refine ⟨Node.effectiveMass_clearBoost_pos hfirst, Node.effectiveMass_clearBoost_pos hsecond, ?_⟩
  unfold clearBoost
  rwa [Node.base_clearBoost, Node.base_clearBoost]

/-- Two free ends take parts of a correction that have the same weight. -/
theorem Mobile.mass_mul_parts (h : e.clearBoost.Mobile) (hfirst : e.first.base = false)
    (hsecond : e.second.base = false) : e.first.mass * e.clearBoost.parts.1 = e.second.mass * e.clearBoost.parts.2 := by
  have hbase : e.clearBoost.first.base = false := e.first.base_clearBoost.trans hfirst
  have hbase' : e.clearBoost.second.base = false := e.second.base_clearBoost.trans hsecond
  have hweights := h.weights hbase hbase'
  rwa [show e.clearBoost.first.effectiveMass = e.first.mass from Node.effectiveMass_clearBoost hfirst,
    show e.clearBoost.second.effectiveMass = e.second.mass from Node.effectiveMass_clearBoost hsecond] at hweights

/-- A stretch that is needed, at the start of a sweep. -/
theorem Mobile.stretched (h : e.clearBoost.Mobile) (hfar : cfg.tolerance ≤ |target - e.vector.length|) :
    ∃ e', lengthPass cfg target e.clearBoost = .ok false e' ∧ e.Stretched target e' := by
  have hpass := lengthPass_mobile cfg h target
  rw [e.length_vector_clearBoost, e.toComplex_vector_clearBoost] at hpass
  rcases hpass with ⟨-, hnear⟩ | ⟨u, e', hpass, hunit, hscaled, hfirst, hsecond⟩
  · exact absurd hnear (not_lt.mpr hfar)
  · have hplace := hfirst.place.trans (congrArg (· + _) e.first.place_clearBoost)
    have hplace' := hsecond.place.trans (congrArg (· + _) e.second.place_clearBoost)
    have hmass := hfirst.body.2.1.trans e.first.mass_clearBoost
    have hmass' := hsecond.body.2.1.trans e.second.mass_clearBoost
    refine ⟨e', hpass, ⟨u, hunit, hscaled, ?_⟩, fun hfree hfree' => ?_⟩
    · rw [← e.toComplex_vector_clearBoost]
      exact h.vector_stretched hfirst hsecond
    · have hweights := congrArg Complex.ofReal (h.mass_mul_parts hfree hfree')
      -- both steps go along `u`, in proportion to the mass of the other end
      refine centroid_of_moved hmass hmass' hplace hplace' ?_
      push_cast at hweights ⊢
      linear_combination -(target - e.vector.length : ℂ) * u * hweights

end Ends

/-! ### Sweeps and runs -/

open Assembly (SamePlan Still)

/-- A pair of two nodes that wants a length and no angle. -/
structure Assembly.Elastic (a : Assembly ℝ) (c : ConstraintId) (first second : NodeId) (f : ℝ → ℝ) : Prop where
  shape : ∃ direction, (a.constraint c).shape = .pair first second direction
  distinct : first ≠ second
  angle : (a.constraint c).angleTarget = none
  length : ∃ t, (a.constraint c).lengthTarget = some t ∧ t.Wants f

theorem Assembly.Elastic.samePlan {a b : Assembly ℝ} {c : ConstraintId} {first second : NodeId} {f : ℝ → ℝ}
    (h : a.Elastic c first second f) (hab : SamePlan a b) : b.Elastic c first second f := by
  obtain ⟨hshape, hne, hangle, hlength⟩ := h
  refine ⟨?_, hne, ?_, ?_⟩
  · rwa [hab.constraint]
  · rwa [hab.constraint]
  · rwa [hab.constraint]

namespace Act

variable {a : Assembly ℝ} {c : ConstraintId} {first second : NodeId} {f : ℝ → ℝ} {e : Ends ℝ}

theorem runs_evaluate_wants {t : Target ℝ} {r : ℝ} (ht : t.Wants f) (hr : a.length c = .ok r) :
    Runs (evaluate c t) a fun x b => x = .ok (f r) ∧ b = a := by
  have hown : Runs (ownLength c) a fun x b => x = .ok r ∧ b = a := runs_read (runs_ofExcept ⟨hr, rfl⟩)
  cases ht with
  | fixed length => exact runs_pure ⟨rfl, rfl⟩
  | atLeast name least =>
    refine runs_bind_pure (hown.mono ?_)
    rintro _ _ ⟨rfl, rfl⟩
    exact ⟨congrArg Except.ok (Scalar.max_real r least), rfl⟩
  | atMost name most =>
    refine runs_bind_pure (hown.mono ?_)
    rintro _ _ ⟨rfl, rfl⟩
    exact ⟨congrArg Except.ok (Scalar.min_real r most), rfl⟩
  | range name least most =>
    refine runs_bind_pure (hown.mono ?_)
    rintro _ _ ⟨rfl, rfl⟩
    refine ⟨congrArg Except.ok ((Scalar.min_real _ most).trans ?_), rfl⟩
    rw [Scalar.max_real]

/-- What an elastic pair wants is read without a change. -/
theorem runs_targetLength_elastic (h : a.Elastic c first second f) (he : e = ⟨a.node first, a.node second⟩) :
    Runs (targetLength c) a fun r b => r = .ok (some (f e.vector.length)) ∧ b = a := by
  obtain ⟨direction, hshape⟩ := h.shape
  obtain ⟨t, hlength, ht⟩ := h.length
  have hown : a.length c = .ok e.vector.length := by
    unfold Assembly.length
    rw [hshape, he]
    rfl
  refine runs_read ?_
  rw [hlength]
  refine runs_bind_pure ((runs_evaluate_wants ht hown).mono ?_)
  rintro _ _ ⟨rfl, rfl⟩
  exact ⟨rfl, rfl⟩

/-- The ends of a pair at the start of a sweep. -/
theorem clearBoost_pair {direction : Direction} (hshape : (a.constraint c).shape = .pair first second direction)
    (he : e = ⟨a.node first, a.node second⟩) : e.clearBoost =
      ⟨(a.clearBoosts (a.nodesOf [c])).node first, (a.clearBoosts (a.nodesOf [c])).node second⟩ := by
  have hnodes : a.nodesOf [c] = [first, second] := by
    unfold Assembly.nodesOf
    rw [List.flatMap_singleton, hshape]
    rfl
  rw [hnodes, Assembly.node_clearBoosts, Assembly.node_clearBoosts, if_pos (by simp), if_pos (by simp), he]
  rfl

/-- A sweep over an elastic pair is one pass. -/
theorem runs_bareSweep_elastic (h : a.Elastic c first second f) (he : e = ⟨a.node first, a.node second⟩) {met : Bool}
    {e' : Ends ℝ} (hpass : lengthPass (a.configOf c) (f e.vector.length) e.clearBoost = .ok met e') :
    Runs (bareSweep [c]) a fun r b => r = .ok [met] ∧
      b.node = e'.put first second (a.clearBoosts (a.nodesOf [c])).node := by
  obtain ⟨direction, hpair⟩ := h.shape
  have hends := clearBoost_pair hpair he
  refine runs_bareSweep_lone ?_
  set cleared := a.clearBoosts (a.nodesOf [c])
  have hplan : SamePlan a cleared := (Assembly.still_clearBoosts a _).samePlan
  have hcleared : cleared.Elastic c first second f := h.samePlan hplan
  -- the boosts are cleared by now, which neither the target nor the vector can tell
  have hread := runs_targetLength_elastic hcleared hends
  rw [e.length_vector_clearBoost] at hread
  obtain ⟨direction, hshape⟩ := hcleared.shape
  rw [hends, ← hplan.configOf c] at hpass
  refine (runs_correctOne_wanted hshape hcleared.angle hread hpass).mono ?_
  rintro _ b ⟨rfl, rfl⟩
  refine ⟨rfl, funext fun n => ?_⟩
  rw [Assembly.node_setNode, Assembly.node_setNode]
  rfl

/-- A pair in order is left as it is. -/
theorem runs_bareSweep_in_order (h : a.Elastic c first second f) (he : e = ⟨a.node first, a.node second⟩)
    (hnear : |f e.vector.length - e.vector.length| < (a.configOf c).tolerance) :
    Runs (bareSweep [c]) a fun r b => r = .ok [true] ∧ Still a b := by
  have hpass : lengthPass (a.configOf c) (f e.vector.length) e.clearBoost = .ok true e.clearBoost := by
    refine lengthPass_of_near ?_
    rwa [e.length_vector_clearBoost]
  refine ((runs_bareSweep_elastic h he hpass).and (runs_bareSweep a [c])).mono ?_
  rintro _ b ⟨⟨rfl, hnode⟩, hcorrected⟩
  obtain ⟨direction, hpair⟩ := h.shape
  have hcleared : b.node = (a.clearBoosts (a.nodesOf [c])).node := by
    rw [hnode, clearBoost_pair hpair he, Ends.put_self]
  refine ⟨rfl, hcorrected.toSameDesign, fun n => ?_, fun n => ?_⟩
  · rw [hcleared]
    exact Assembly.place_clearBoosts a _ n
  · rw [hcleared]
    exact Assembly.worked_clearBoosts a _ n

/-- A pair that is off is stretched. -/
theorem runs_bareSweep_off (h : a.Elastic c first second f) (he : e = ⟨a.node first, a.node second⟩)
    (hmobile : e.clearBoost.Mobile) (hfar : (a.configOf c).tolerance ≤ |f e.vector.length - e.vector.length|) :
    Runs (bareSweep [c]) a fun r b => r = .ok [false] ∧ SamePlan a b ∧
      e.Stretched (f e.vector.length) ⟨b.node first, b.node second⟩ := by
  obtain ⟨e', hpass, hstretched⟩ := hmobile.stretched hfar
  refine ((runs_bareSweep_elastic h he hpass).and (runs_bareSweep a [c])).mono ?_
  rintro _ b ⟨⟨rfl, hnode⟩, hcorrected⟩
  refine ⟨rfl, hcorrected.samePlan, ?_⟩
  rwa [hnode, Ends.put_first h.distinct, Ends.put_second]

section Runs

variable {st : Session ℝ} {s : SystemId}

/-- A run over a pair in order is one sweep that moves nothing. -/
theorem converges_in_order (h : st.assembly.Elastic c first second f)
    (he : e = ⟨st.assembly.node first, st.assembly.node second⟩)
    (hnear : |f e.vector.length - e.vector.length| < (st.assembly.configOf c).tolerance) :
    Converges s [c] 1 st ∧ Still st.assembly ((bareSweep [c]).after st).assembly := by
  obtain ⟨hanswer, hstill⟩ := (runs_bareSweep_in_order h he hnear).at_session
  refine ⟨converges_succ.mpr ⟨[true], hanswer, Assembly.isFinite_real _ s, ?_⟩, hstill⟩
  rw [if_pos rfl]
  simp

/-- A run over a pair that is off is one sweep that stretches it and one that finds it in order. -/
theorem converges_off (h : st.assembly.Elastic c first second f)
    (he : e = ⟨st.assembly.node first, st.assembly.node second⟩) (hmobile : e.clearBoost.Mobile)
    (hf : Retraction f) (htolerance : 4 * Scalar.epsilon < (st.assembly.configOf c).tolerance)
    (hfar : (st.assembly.configOf c).tolerance ≤ |f e.vector.length - e.vector.length|) :
    Converges s [c] 2 st ∧ e.Stretched (f e.vector.length)
      ⟨(swept [c] 2 st).assembly.node first, (swept [c] 2 st).assembly.node second⟩ := by
  obtain ⟨hanswer, hplan, hstretched⟩ := (runs_bareSweep_off h he hmobile hfar).at_session
  -- one stretch is enough: whatever the direction, the pair is in order after it
  have hin_order := hstretched.in_order hf htolerance hfar
  rw [← hplan.configOf c] at hin_order
  obtain ⟨hconverges, hstill⟩ := converges_in_order (s := s) (h.samePlan hplan) rfl hin_order
  refine ⟨converges_succ.mpr ⟨[false], hanswer, Assembly.isFinite_real _ s, ?_⟩, ?_⟩
  · rw [if_neg one_ne_zero]
    exact ⟨List.mem_singleton_self false, hconverges⟩
  · have hswept : swept [c] 2 st = (bareSweep [c]).after ((bareSweep [c]).after st) := swept_succ [c] 1 st
    rw [hswept]
    exact hstretched.still ⟨hstill.place first, (hstill.worked first).body.1⟩
      ⟨hstill.place second, (hstill.worked second).body.1⟩

end Runs

/-- In exact arithmetic, for a system whose only constraint is a pair that wants a length of its own (`Target.Wants`) and
no angle: if the pair is off by less than the tolerance, a run answers one and moves nothing.  Otherwise it answers two and
leaves the centre of mass of two free ends where it was; and if the pair was long enough to have a direction, it has the
wanted length then, still wants it, and has its old angle unless that length is zero. -/
theorem correct_stretches (st : Session ℝ) (hst : st.assembly.Consistent) (s : SystemId) (c : ConstraintId)
    (hone : (st.assembly.system s).constraints = [c]) (first second : NodeId) (direction : Direction)
    (hshape : (st.assembly.constraint c).shape = .pair first second direction) (hne : first ≠ second)
    (hangle : (st.assembly.constraint c).angleTarget = none) (t : Target ℝ)
    (hlength : (st.assembly.constraint c).lengthTarget = some t) (f : ℝ → ℝ) (ht : t.Wants f) (cfg : Config ℝ)
    (hcfg : cfg = st.assembly.config (st.assembly.system s).config) (hcap : 2 ≤ cfg.cap)
    (htolerance : 4 * Scalar.epsilon < cfg.tolerance) (e e' : Ends ℝ)
    (he : e = ⟨st.assembly.node first, st.assembly.node second⟩)
    (he' : e' = ⟨((correct s).after st).assembly.node first, ((correct s).after st).assembly.node second⟩)
    (hfirst : e.first.base = false → 0 < e.first.mass) (hsecond : e.second.base = false → 0 < e.second.mass)
    (hfree : e.first.base = false ∨ e.second.base = false) (target : ℝ) (htarget : target = f e.vector.length) :
    (targetLength c).answer st = .ok (some target) ∧
    (|target - e.vector.length| < cfg.tolerance → (correct s).answer st = .ok 1 ∧
      ∀ n, (((correct s).after st).assembly.node n).place = (st.assembly.node n).place) ∧
    (cfg.tolerance ≤ |target - e.vector.length| → (correct s).answer st = .ok 2 ∧
      (e.first.base = false → e.second.base = false → e'.centroid = e.centroid) ∧
      (Scalar.epsilon < e.vector.length → e'.vector.length = target ∧
        (targetLength c).answer ((correct s).after st) = .ok (some target) ∧
        (0 < target → e'.vector.angle = e.vector.angle))) := by
  have helastic : st.assembly.Elastic c first second f := ⟨⟨direction, hshape⟩, hne, hangle, t, hlength, ht⟩
  have hf : Retraction f := ht.retraction
  have hconfig : st.assembly.configOf c = cfg := by
    rw [hst.configOf (s := s) (by simp [hone]), hcfg]
  have hcounted (k : Nat) (hk : 1 ≤ k) (hcap : k ≤ cfg.cap) (h : Converges s [c] k st) :
      (correct s).answer st = .ok k := by
    refine ((runs_correct st s).at_session k hk).1.mpr ⟨by rwa [← hcfg], ?_⟩
    rwa [hone]
  rw [htarget, ← hconfig]
  rw [← hconfig] at htolerance
  refine ⟨(runs_targetLength_elastic helastic he).at_session.1, fun hnear => ?_, fun hfar => ?_⟩
  · obtain ⟨hconverges, hstill⟩ := converges_in_order (s := s) helastic he hnear
    have hanswer := hcounted 1 (Nat.le_refl 1) (by omega) hconverges
    refine ⟨hanswer, fun n => ?_⟩
    rw [node_correct (Nat.le_refl 1) hanswer, hone]
    exact hstill.place n
  · have hmobile := Ends.mobile_clearBoost hfirst hsecond hfree
    obtain ⟨hconverges, hstretched⟩ := converges_off (s := s) helastic he hmobile hf htolerance hfar
    have hanswer := hcounted 2 (by omega) hcap hconverges
    have hnode := node_correct (by omega) hanswer
    rw [hone] at hnode
    rw [← hnode, ← he'] at hstretched
    refine ⟨hanswer, hstretched.centroid, fun hlong => ?_⟩
    -- the pair has its length now, and what it wants of that length is that length
    have hreached : e'.vector.length = f e.vector.length :=
      hstretched.length_eq hlong (hf.nonneg _ (Vec.length_nonneg e.vector))
    have hplan : SamePlan st.assembly ((correct s).after st).assembly :=
      ((relaxed_correct s st.assembly).at_session).toSamePlan
    have hread := (runs_targetLength_elastic (helastic.samePlan hplan) he').at_session.1
    rw [hreached, hf.again] at hread
    exact ⟨hreached, hread, hstretched.angle_eq hlong⟩

/-- A bar between free ends, three times as long as it may be. -/
noncomputable def overlongBar : Session ℝ :=
  run [.newConfig ⟨.int 256, 1, 1⟩, .newSystem (some 0), .node 0 0 0 { mass := some none },
    .node 0 0 (1 + 1 + 1) { mass := some none },
    .pair 0 0 1 { length := some (.target (.computed ⟨.lengthMax 1, .ownLengthMax 1⟩)) }]
    ⟨.empty ⟨.int 256, 1, 1⟩, .empty Level.warning⟩

/-- The overlong bar is brought to its most. -/
theorem correct_stretches_overlong : (correct 0).answer overlongBar = .ok 2 ∧
    ((((correct 0).after overlongBar).assembly.node 0).vectorTo
      (((correct 0).after overlongBar).assembly.node 1)).length = 1 := by
  have hconsistent : overlongBar.assembly.Consistent := consistent_run (Assembly.consistent_empty _) _
  have hlength : (⟨overlongBar.assembly.node 0, overlongBar.assembly.node 1⟩ : Ends ℝ).vector.length = 3 := by
    refine (Vec.length_upright (y := 1 + 1 + 1) (by norm_num)).trans ?_
    norm_num
  have htolerance : 4 * (Scalar.epsilon : ℝ) < 1 := by
    change 4 * ((2 ^ 52 : ℕ) : ℝ)⁻¹ < 1
    norm_num
  have hlong : (Scalar.epsilon : ℝ) < 3 := by linarith
  have htarget : (1 : ℝ) = min (⟨overlongBar.assembly.node 0, overlongBar.assembly.node 1⟩ : Ends ℝ).vector.length 1 := by
    rw [hlength]
    norm_num
  obtain ⟨-, -, hstretch⟩ := correct_stretches overlongBar hconsistent 0 0 rfl 0 1 .either rfl (by decide) rfl _ rfl
    (fun r => min r 1) (.atMost (.lengthMax 1) 1 zero_le_one) ⟨.int 256, 1, 1⟩ rfl (by decide) htolerance _ _ rfl rfl
    (fun _ => zero_lt_one) (fun _ => zero_lt_one) (Or.inl rfl) 1 htarget
  rw [hlength] at hstretch
  obtain ⟨hanswer, -, hreached⟩ := hstretch (by norm_num)
  exact ⟨hanswer, (hreached hlong).1⟩

end Act

end Linkage
