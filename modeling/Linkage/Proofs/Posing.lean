import Linkage.Proofs.Stretching

/-!
# Linkage.Proofs.Posing — one bar with a length and an angle

The two passes of a pair that wants both work on one vector.  The first leaves of it what it is along the target line, and
the second stretches that, if it is long enough to have a direction.  Then the vector is as wanted (`Pose.Sweep.suits`), and
the next sweep finds it so (`Pose.Sweep.met_of_suits`).  A vector that is left too short is pushed along the x-axis instead,
and is then along the target line what the cosine of the wanted angle makes of that push (`Pose.Sweep.stalled`).  So a bar
alone in its system is posed within three sweeps unless its target line is almost upright, and one whose line is upright
may be pushed and turned back for ever (`correct_poses`).
-/

namespace Linkage

/-! ### Poses -/

/-- What is wanted of a bar. -/
structure Pose where
  direction : Direction
  length : ℝ
  angle : ℝ

namespace Pose

/-- How far along its line a vector that was `x` along it is after it was turned: as far, on the side that is kept to and
within reach. -/
noncomputable def turned (p : Pose) (cfg : Config ℝ) (x : ℝ) : ℝ := max (-cfg.reach) (min (p.direction.side x) cfg.reach)

/-- What is left of the vector is too short to have a direction, and not the wanted length. -/
def Stalls (p : Pose) (cfg : Config ℝ) (x : ℝ) : Prop :=
  |p.turned cfg x| ≤ Scalar.epsilon ∧ cfg.tolerance ≤ |p.length - (|p.turned cfg x|)|

/-- How far along its line a vector is after it was turned and then pushed along the x-axis. -/
noncomputable def pushed (p : Pose) (cfg : Config ℝ) (x : ℝ) : ℝ :=
  p.turned cfg x + (p.length - |p.turned cfg x|) * Real.cos p.angle

/-- A vector may be `t` along its line: that is within reach and on the side that is kept to. -/
structure Allows (p : Pose) (cfg : Config ℝ) (t : ℝ) : Prop where
  within : |t| ≤ cfg.reach
  side : 0 ≤ p.direction.sign * t

/-- It has its wanted length, too. -/
structure Suits (p : Pose) (cfg : Config ℝ) (t : ℝ) : Prop extends p.Allows cfg t where
  near : |p.length - (|t|)| < cfg.tolerance

section Turned

variable {p : Pose} {cfg : Config ℝ} {t x : ℝ}

theorem turned_of_near (h : |x| ≤ cfg.reach) : p.turned cfg x = p.direction.side x := by
  have hside : |p.direction.side x| = |x| := abs_side
  rw [← hside] at h
  obtain ⟨hlow, hhigh⟩ := abs_le.mp h
  rw [turned, min_eq_left hhigh, max_eq_right hlow]

theorem turned_of_far (hreach : 0 < cfg.reach) (h : cfg.reach < |x|) :
    p.turned cfg x = cfg.reach / |x| * p.direction.side x := by
  have hside : |p.direction.side x| = |x| := abs_side
  rw [← hside] at h ⊢
  set y := p.direction.side x with hy
  have hne : |y| ≠ 0 := (hreach.trans h).ne'
  rw [turned, ← hy]
  rcases le_or_gt 0 y with hpos | hneg
  · rw [abs_of_nonneg hpos] at h hne ⊢
    rw [min_eq_right h.le, max_eq_right (by linarith), div_mul_cancel₀ _ hne]
  · rw [abs_of_neg hneg] at h hne ⊢
    rw [min_eq_left (by linarith), max_eq_left (by linarith), div_neg, neg_mul, div_mul_cancel₀ _ (neg_ne_zero.mp hne)]

/-- A vector that is where it may be is left there. -/
theorem Allows.turned (h : p.Allows cfg t) : p.turned cfg t = t := by
  rw [turned_of_near h.within, side_of_kept h.side]

theorem abs_turned (hreach : 0 < cfg.reach) : |p.turned cfg x| = min |x| cfg.reach := by
  rcases le_or_gt |x| cfg.reach with hnear | hfar
  · rw [turned_of_near hnear, abs_side, min_eq_left hnear]
  · have hpos : 0 < |x| := hreach.trans hfar
    rw [turned_of_far hreach hfar, abs_mul, abs_side, abs_of_pos (div_pos hreach hpos), div_mul_cancel₀ _ hpos.ne',
      min_eq_right hfar.le]

/-- A vector is turned to where it may be. -/
theorem allows_turned (hreach : 0 < cfg.reach) (x : ℝ) : p.Allows cfg (p.turned cfg x) where
  within := by
    rw [abs_turned hreach]
    exact min_le_right _ _
  side := by
    rcases le_or_gt |x| cfg.reach with hnear | hfar
    · rw [turned_of_near hnear]
      exact sign_mul_side
    · rw [turned_of_far hreach hfar, mul_left_comm]
      exact mul_nonneg (div_nonneg hreach.le (abs_nonneg x)) sign_mul_side

/-- A push on a line that is not too steep is enough. -/
theorem not_stalls_pushed (hreach : 0 < cfg.reach) (hlength : p.length ≤ cfg.reach) (hstalls : p.Stalls cfg x)
    (hslant : 2 * Scalar.epsilon < (p.length - Scalar.epsilon) * |Real.cos p.angle|) :
    ¬p.Stalls cfg (p.pushed cfg x) := by
  obtain ⟨hshort, -⟩ := hstalls
  have hepsilon : (0 : ℝ) < Scalar.epsilon := Scalar.Signs.epsilon_pos
  have hlong : Scalar.epsilon < p.length := by
    by_contra hle
    have := mul_nonpos_of_nonpos_of_nonneg (sub_nonpos.mpr (not_lt.mp hle)) (abs_nonneg (Real.cos p.angle))
    linarith
  rintro ⟨hagain, -⟩
  rw [abs_turned hreach, min_le_iff] at hagain
  -- it would be within the smallest length of the pole again, or be cut off at the reach
  rcases hagain with hpushed | hreached
  · have hpush : (p.length - Scalar.epsilon) * |Real.cos p.angle| ≤
        |(p.length - (|p.turned cfg x|)) * Real.cos p.angle| := by
      rw [abs_mul, abs_of_pos (by linarith : 0 < p.length - (|p.turned cfg x|))]
      exact mul_le_mul_of_nonneg_right (by linarith) (abs_nonneg _)
    -- but the push takes it further along the line than that
    have hback : |(p.length - (|p.turned cfg x|)) * Real.cos p.angle| ≤ |p.pushed cfg x| + |p.turned cfg x| := by
      have hbounds := abs_sub (p.pushed cfg x) (p.turned cfg x)
      rwa [pushed, add_sub_cancel_left] at hbounds
    linarith
  · linarith

end Turned

/-! ### What a sweep does -/

/-- What a sweep makes of a vector `z`, which is `t` along its line once it is turned, and what it answers. -/
inductive Sweep (p : Pose) (cfg : Config ℝ) (z : ℂ) (t : ℝ) : Bool → ℂ → Prop where
  /-- Turning it gives it its length, too.  If that leaves it as it was, it was met. -/
  | found (met : Bool) (hnear : |p.length - (|t|)| < cfg.tolerance) (hkept : z = t * bearing p.angle → met = true) :
      Sweep p cfg z t met (t * bearing p.angle)
  | stretched (hfar : cfg.tolerance ≤ |p.length - (|t|)|) (hlong : Scalar.epsilon < |t|) :
      Sweep p cfg z t false ((p.length * (t / |t|) : ℝ) * bearing p.angle)
  | pushed (hfar : cfg.tolerance ≤ |p.length - (|t|)|) (hshort : |t| ≤ Scalar.epsilon) :
      Sweep p cfg z t false (t * bearing p.angle + (p.length - |t| : ℝ))

namespace Sweep

variable {p : Pose} {cfg : Config ℝ} {z z' : ℂ} {t : ℝ} {met : Bool}

/-- What was met is as wanted. -/
theorem suits_of_met (h : p.Sweep cfg z t true z') (hallows : p.Allows cfg t) :
    z' = t * bearing p.angle ∧ p.Suits cfg t := by
  cases h with
  | found _ hnear => exact ⟨rfl, hallows, hnear⟩

/-- A vector that is long enough, or has its length, is as wanted after the sweep. -/
theorem suits (h : p.Sweep cfg z t met z') (hallows : p.Allows cfg t)
    (hlength : 0 < p.length ∧ p.length ≤ cfg.reach) (htolerance : 0 < cfg.tolerance)
    (hlong : |p.length - (|t|)| < cfg.tolerance ∨ Scalar.epsilon < |t|) :
    ∃ s : ℝ, z' = s * bearing p.angle ∧ p.Suits cfg s := by
  cases h with
  | found _ hnear => exact ⟨t, rfl, hallows, hnear⟩
  | stretched hfar hlong =>
    have hpos : 0 < |t| := Scalar.pos_of_epsilon_lt hlong
    have hreached : |p.length * (t / |t|)| = p.length := by
      rw [abs_mul, abs_div, abs_abs, div_self hpos.ne', mul_one, abs_of_pos hlength.1]
    refine ⟨p.length * (t / |t|), rfl, ⟨hreached.trans_le hlength.2, ?_⟩, ?_⟩
    · rw [mul_left_comm, ← mul_div_assoc]
      exact mul_nonneg hlength.1.le (div_nonneg hallows.side hpos.le)
    · rw [hreached, sub_self, abs_zero]
      exact htolerance
  | pushed hfar hshort => exact (hlong.elim hfar.not_gt hshort.not_gt).elim

/-- What is as wanted is met. -/
theorem met_of_suits (h : p.Sweep cfg (t * bearing p.angle) t met z') (hsuits : p.Suits cfg t) : met = true := by
  cases h with
  | found _ _ hkept => exact hkept rfl
  | stretched hfar => exact absurd hsuits.near hfar.not_gt
  | pushed hfar => exact absurd hsuits.near hfar.not_gt

/-- A vector that stalls is pushed, and not met. -/
theorem stalled {x : ℝ} (h : p.Sweep cfg z (p.turned cfg x) met z') (hstalls : p.Stalls cfg x) :
    met = false ∧ advance z' p.angle = p.pushed cfg x := by
  obtain ⟨hshort, hfar⟩ := hstalls
  cases h with
  | found _ hnear => exact absurd hnear hfar.not_gt
  | stretched _ hlong => exact absurd hlong hshort.not_gt
  | pushed => exact ⟨rfl, by rw [advance_add, advance_self, advance_ofReal, Pose.pushed]⟩

end Sweep

/-- Sweeps in a row, of the vectors `z` and with the answers `met`. -/
def Row (p : Pose) (cfg : Config ℝ) (z : ℕ → ℂ) (met : ℕ → Bool) : Prop :=
  ∀ i, p.Sweep cfg (z i) (p.turned cfg (advance (z i) p.angle)) (met i) (z (i + 1))

section Row

variable {p : Pose} {cfg : Config ℝ} {z : ℕ → ℂ} {met : ℕ → Bool} {n : ℕ}

/-- As long as the vector stalls, every sweep pushes it. -/
theorem Row.advance_of_stalls (h : p.Row cfg z met)
    (hstalls : ∀ i < n, p.Stalls cfg ((p.pushed cfg)^[i] (advance (z 0) p.angle))) :
    advance (z n) p.angle = (p.pushed cfg)^[n] (advance (z 0) p.angle) := by
  induction n with
  | zero => rfl
  | succ n ih =>
    have hn := ih fun i hi => hstalls i (by omega)
    have hstall := hstalls n (by omega)
    rw [← hn] at hstall
    rw [((h n).stalled hstall).2, hn, Function.iterate_succ_apply']

theorem Row.met_of_stalls (h : p.Row cfg z met)
    (hstalls : ∀ i ≤ n, p.Stalls cfg ((p.pushed cfg)^[i] (advance (z 0) p.angle))) : met n = false := by
  have hstall := hstalls n (le_refl n)
  rw [← h.advance_of_stalls fun i hi => hstalls i hi.le] at hstall
  exact ((h n).stalled hstall).1

/-- Once it does not stall, it is posed, and found so by the next sweep at the latest. -/
theorem Row.exists_met (h : p.Row cfg z met) (hvalid : cfg.Valid) (hlength : 0 < p.length ∧ p.length ≤ cfg.reach)
    (hmoves : ¬p.Stalls cfg ((p.pushed cfg)^[n] (advance (z 0) p.angle))) : ∃ i ≤ n + 1, met i = true := by
  obtain ⟨-, htolerance, hreach⟩ := hvalid
  induction n using Nat.strong_induction_on with
  | h n ih =>
    -- the sweep that matters is the first one that does not push
    by_cases hbefore : ∀ i < n, p.Stalls cfg ((p.pushed cfg)^[i] (advance (z 0) p.angle))
    · rw [← h.advance_of_stalls hbefore, Stalls, not_and_or, not_le, not_le] at hmoves
      obtain ⟨t, hz, hsuits⟩ := (h n).suits (allows_turned hreach _) hlength htolerance hmoves.symm
      have hnext := h (n + 1)
      rw [hz, advance_self, hsuits.turned] at hnext
      exact ⟨n + 1, le_refl _, hnext.met_of_suits hsuits⟩
    · push Not at hbefore
      obtain ⟨i, hi, hmoves⟩ := hbefore
      obtain ⟨j, hj, hmet⟩ := ih i hi hmoves
      exact ⟨j, by omega, hmet⟩

end Row

end Pose

/-! ### Passes -/

namespace Ends

variable {cfg : Config ℝ} {p : Pose} {e e' : Ends ℝ}

theorem Projected.vector_eq (h : e.Projected cfg p.direction p.angle e') (hreach : 0 < cfg.reach) :
    e'.vector.toComplex = p.turned cfg (advance e.vector.toComplex p.angle) * bearing p.angle := by
  rcases le_or_gt |advance e.vector.toComplex p.angle| cfg.reach with hnear | hfar
  · rw [h.near hnear, Pose.turned_of_near hnear, projection_eq_side]
  · rw [h.far hfar, Pose.turned_of_far hreach hfar, projection_eq_side, Complex.ofReal_mul, mul_assoc]

/-- Turned ends can be moved again. -/
theorem Projected.mobile (h : e.Projected cfg p.direction p.angle e') (hmobile : e.Mobile) : e'.Mobile :=
  ⟨h.first.effectiveMass_pos hmobile.first, h.second.effectiveMass_pos hmobile.second,
    hmobile.free.imp h.first.body.1.trans h.second.body.1.trans⟩

/-- What the second pass does to a vector on its line. -/
theorem Mobile.lengthPass_on_line (h : e.Mobile) (cfg : Config ℝ) {z : ℂ} {t : ℝ}
    (hvector : e.vector.toComplex = t * bearing p.angle) {angleMet : Bool}
    (hkept : z = t * bearing p.angle → angleMet = true) : ∃ lengthMet e',
      lengthPass cfg p.length e = .ok lengthMet e' ∧ p.Sweep cfg z t (lengthMet && angleMet) e'.vector.toComplex := by
  have hlength := Vec.length_on_line hvector
  -- a length that is near is kept; one that is not is stretched along the line, or along the x-axis if it is too short
  by_cases hnear : |p.length - e.vector.length| < cfg.tolerance
  · refine ⟨_, _, lengthPass_of_near hnear, ?_⟩
    rw [hlength] at hnear
    rw [hvector]
    exact .found _ hnear hkept
  · obtain ⟨e', hpass, hfirst, hsecond⟩ := lengthPass_far cfg h (not_lt.mp hnear)
    refine ⟨_, _, hpass, ?_⟩
    have hstretched := h.vector_stretched hfirst hsecond
    by_cases hlong : Scalar.epsilon < e.vector.length
    · have hcourse := Vec.course_on_line hvector hlong
      rw [hlength] at hnear hlong hstretched
      have hne : |t| ≠ 0 := (Scalar.pos_of_epsilon_lt hlong).ne'
      have hscaled : e'.vector.toComplex = (p.length * (t / |t|) : ℝ) * bearing p.angle := by
        rw [hstretched, hcourse, hvector, ← mul_assoc, ← Complex.ofReal_mul, ← add_mul, ← Complex.ofReal_add, sub_mul,
          mul_div_cancel₀ _ hne, add_sub_cancel]
      rw [hscaled]
      exact .stretched (not_lt.mp hnear) hlong
    · rw [hstretched, Vec.course_of_short hlong, mul_one, hvector]
      rw [hlength] at hnear hlong ⊢
      exact .pushed (not_lt.mp hnear) (not_lt.mp hlong)

/-- The two passes on ends that can be moved. -/
theorem Mobile.sweep (h : e.Mobile) (hvalid : cfg.Valid) (p : Pose) : ∃ angleMet lengthMet e' e'',
    anglePass cfg p.direction p.angle e = .ok angleMet e' ∧ lengthPass cfg p.length e' = .ok lengthMet e'' ∧
      p.Sweep cfg e.vector.toComplex (p.turned cfg (advance e.vector.toComplex p.angle)) (lengthMet && angleMet)
        e''.vector.toComplex := by
  obtain ⟨-, htolerance, hreach⟩ := hvalid
  obtain ⟨angleMet, e', hturn⟩ : ∃ met e', anglePass cfg p.direction p.angle e = .ok met e' :=
    anglePass_succeeds_of_shares hreach h.shares_eq rfl
  obtain ⟨hprojected, hmet⟩ := (turns_of_anglePass hturn).projected h htolerance hreach
  have hvector := hprojected.vector_eq hreach
  set t := p.turned cfg (advance e.vector.toComplex p.angle) with ht
  -- a vector that turning leaves is accepted by it, which the second pass needs to know
  have hkept (hline : e.vector.toComplex = t * bearing p.angle) : angleMet = true := by
    have hadvance : advance e.vector.toComplex p.angle = t := by rw [hline, advance_self]
    have hallows : p.Allows cfg t := Pose.allows_turned hreach _
    have hsame : p.direction.projection e.vector.toComplex p.angle = e.vector.toComplex := by
      rw [projection_eq_side, hadvance, side_of_kept hallows.side, hline]
    refine hmet.mpr ?_
    rw [hsame, sub_self, hadvance, Complex.zero_re, Complex.zero_im, abs_zero]
    exact ⟨htolerance, htolerance, lt_add_of_le_of_pos hallows.within htolerance⟩
  obtain ⟨lengthMet, e'', hstretch, hsweep⟩ := (hprojected.mobile h).lengthPass_on_line cfg hvector hkept
  exact ⟨angleMet, lengthMet, e', e'', hturn, hstretch, hsweep⟩

end Ends

/-! ### Sweeps -/

open Assembly (SamePlan)

/-- A pair of two nodes that wants a length and an angle. -/
structure Assembly.Aimed (a : Assembly ℝ) (c : ConstraintId) (first second : NodeId) (p : Pose) : Prop where
  shape : (a.constraint c).shape = .pair first second p.direction
  distinct : first ≠ second
  angle : (a.constraint c).angleTarget = some (.fixed p.angle)
  length : (a.constraint c).lengthTarget = some (.fixed p.length)

theorem Assembly.Aimed.samePlan {a b : Assembly ℝ} {c : ConstraintId} {first second : NodeId} {p : Pose}
    (h : a.Aimed c first second p) (hab : SamePlan a b) : b.Aimed c first second p :=
  ⟨by rw [hab.shape, h.shape], h.distinct, by rw [hab.angleTarget, h.angle], by rw [hab.lengthTarget, h.length]⟩

namespace Act

variable {a : Assembly ℝ} {c : ConstraintId} {first second : NodeId} {p : Pose} {e : Ends ℝ}

/-- A sweep over a bar is its two passes. -/
theorem runs_bareSweep_aimed (h : a.Aimed c first second p) (he : e = ⟨a.node first, a.node second⟩)
    (hmobile : e.clearBoost.Mobile) (hvalid : (a.configOf c).Valid) : Runs (bareSweep [c]) a fun r b => ∃ met,
      r = .ok [met] ∧ p.Sweep (a.configOf c) e.vector.toComplex
        (p.turned (a.configOf c) (advance e.vector.toComplex p.angle)) met
        (⟨b.node first, b.node second⟩ : Ends ℝ).vector.toComplex := by
  have hends := clearBoost_pair h.shape he
  obtain ⟨angleMet, lengthMet, e', e'', hturn, hstretch, hsweep⟩ := hmobile.sweep hvalid p
  rw [e.toComplex_vector_clearBoost] at hsweep
  have hplan : SamePlan a (a.clearBoosts (a.nodesOf [c])) := (Assembly.still_clearBoosts a _).samePlan
  have hcleared := h.samePlan hplan
  rw [hends, ← hplan.configOf c] at hturn
  rw [← hplan.configOf c] at hstretch
  -- clearing the boosts leaves shape and targets, so that the sweep is one correction of the bar as it was
  have htargets : ((a.clearBoosts (a.nodesOf [c])).constraint c).angleTarget = (some p.angle).map .fixed ∧
      ((a.clearBoosts (a.nodesOf [c])).constraint c).lengthTarget = (some p.length).map .fixed :=
    ⟨hcleared.angle, hcleared.length⟩
  have hcorrect := runs_correctOne_toward hcleared.shape h.distinct (runs_targetAngle_fixed_node htargets.1) htargets.2
    hturn hstretch
  refine (runs_bareSweep_lone hcorrect).mono ?_
  rintro _ b ⟨rfl, hnode⟩
  refine ⟨_, rfl, ?_⟩
  rw [hnode, Ends.put_first h.distinct, Ends.put_second]
  exact hsweep

section Runs

variable {st : Session ℝ}

/-- The ends of a bar after so many sweeps. -/
noncomputable def endsAfter (c : ConstraintId) (first second : NodeId) (st : Session ℝ) (sweeps : ℕ) : Ends ℝ :=
  ⟨(swept [c] sweeps st).assembly.node first, (swept [c] sweeps st).assembly.node second⟩

/-- Each of a row of sweeps over a bar is its two passes. -/
theorem answer_bareSweep_aimed (h : st.assembly.Aimed c first second p)
    (he : e = ⟨st.assembly.node first, st.assembly.node second⟩)
    (hfirst : e.first.base = false → 0 < e.first.mass) (hsecond : e.second.base = false → 0 < e.second.mass)
    (hfree : e.first.base = false ∨ e.second.base = false) {cfg : Config ℝ} (hcfg : cfg = st.assembly.configOf c)
    (hvalid : cfg.Valid) (sweeps : ℕ) : ∃ met, (bareSweep [c]).answer (swept [c] sweeps st) = .ok [met] ∧
      p.Sweep cfg (endsAfter c first second st sweeps).vector.toComplex
        (p.turned cfg (advance (endsAfter c first second st sweeps).vector.toComplex p.angle)) met
        (endsAfter c first second st (sweeps + 1)).vector.toComplex := by
  have hplan := (corrected_swept [c] sweeps st).samePlan
  obtain ⟨hmass, hbase, -⟩ := (worked_swept [c] sweeps st first).body
  obtain ⟨hmass', hbase', -⟩ := (worked_swept [c] sweeps st second).body
  have hmobile : (endsAfter c first second st sweeps).clearBoost.Mobile := by
    rw [he] at hfirst hsecond hfree
    refine Ends.mobile_clearBoost ?_ ?_ (hfree.imp hbase.trans hbase'.trans)
    · exact fun hn => (hfirst (hbase.symm.trans hn)).trans_eq hmass.symm
    · exact fun hn => (hsecond (hbase'.symm.trans hn)).trans_eq hmass'.symm
  have hconfig := (hplan.configOf c).trans hcfg.symm
  have hsweep := (runs_bareSweep_aimed (h.samePlan hplan) rfl hmobile (hconfig ▸ hvalid)).at_session
  rwa [hconfig, after_bareSweep] at hsweep

end Runs

/-- In exact arithmetic, with a valid configuration, for a system whose only constraint is a pair that wants a fixed angle
and a fixed length within reach, and whose ends have masses and are not both base nodes: a run that converges leaves its
vector on the target line, on the side that is kept to, and within the tolerance of its length.  If the cap allows three
sweeps, it takes three at most, unless the vector is left too short to have a direction when it is first turned and the
target line is too near to the vertical for a push along the x-axis to make up for that.  In general it converges at most
two sweeps after so many pushes that the vector does not stall, and answers zero if it stalls in every sweep. -/
theorem correct_poses (st : Session ℝ) (hst : st.assembly.Consistent) (s : SystemId) (c : ConstraintId)
    (hone : (st.assembly.system s).constraints = [c]) (first second : NodeId) (p : Pose)
    (haimed : st.assembly.Aimed c first second p) (cfg : Config ℝ)
    (hcfg : cfg = st.assembly.config (st.assembly.system s).config) (hvalid : cfg.Valid)
    (hlength : 0 < p.length ∧ p.length ≤ cfg.reach) (e e' : Ends ℝ)
    (he : e = ⟨st.assembly.node first, st.assembly.node second⟩)
    (he' : e' = ⟨((correct s).after st).assembly.node first, ((correct s).after st).assembly.node second⟩)
    (hfirst : e.first.base = false → 0 < e.first.mass) (hsecond : e.second.base = false → 0 < e.second.mass)
    (hfree : e.first.base = false ∨ e.second.base = false) (x : ℕ → ℝ)
    (hx : ∀ n, x n = (p.pushed cfg)^[n] (advance e.vector.toComplex p.angle)) :
    (∀ k, 1 ≤ k → (correct s).answer st = .ok k → |e'.vector.length - p.length| < cfg.tolerance ∧
      ∃ t : ℝ, e'.vector.toComplex = t * bearing p.angle ∧ 0 ≤ p.direction.sign * t) ∧
    (3 ≤ cfg.cap → (p.Stalls cfg (x 0) → 2 * Scalar.epsilon < (p.length - Scalar.epsilon) * |Real.cos p.angle|) →
      ∃ k, 1 ≤ k ∧ k ≤ 3 ∧ (correct s).answer st = .ok k) ∧
    (∀ n, ¬p.Stalls cfg (x n) → n + 2 ≤ cfg.cap → ∃ k, 1 ≤ k ∧ k ≤ n + 2 ∧ (correct s).answer st = .ok k) ∧
    ((∀ n < cfg.cap, p.Stalls cfg (x n)) → (correct s).answer st = .ok 0) := by
  have hconfig : cfg = st.assembly.configOf c := by
    rw [hst.configOf (s := s) (by simp [hone]), hcfg]
  choose met hanswer hrow using answer_bareSweep_aimed haimed he hfirst hsecond hfree hconfig hvalid
  have hrow : p.Row cfg _ met := hrow
  have hstart : (endsAfter c first second st 0).vector = e.vector := by
    rw [he]
    rfl
  obtain ⟨hcounted, hnever⟩ := correct_lone hone hanswer
  rw [← hcfg] at hcounted hnever
  -- as soon as the vector does not stall, two sweeps more are enough, and the run counts to the first that is met
  have hmoving (n : ℕ) (hmoves : ¬p.Stalls cfg (x n)) (hcap : n + 2 ≤ cfg.cap) :
      ∃ k, 1 ≤ k ∧ k ≤ n + 2 ∧ (correct s).answer st = .ok k := by
    rw [hx, ← hstart] at hmoves
    obtain ⟨i, hi, hmet⟩ := hrow.exists_met hvalid hlength hmoves
    set sweeps : Set ℕ := {k | 1 ≤ k ∧ met (k - 1) = true}
    have hmem : i + 1 ∈ sweeps := ⟨by omega, hmet⟩
    have hleast : IsLeast sweeps (sInf sweeps) := ⟨Nat.sInf_mem ⟨_, hmem⟩, fun _ hk => Nat.sInf_le hk⟩
    have hle : sInf sweeps ≤ i + 1 := Nat.sInf_le hmem
    exact ⟨_, hleast.1.1, by omega, (hcounted _ hleast.1.1).mpr ⟨by omega, hleast⟩⟩
  refine ⟨fun k hk hans => ?_, fun hcap hslant => ?_, hmoving, fun hstalls => hnever fun k hk hle => ?_⟩
  · have hmet : met (k - 1) = true := ((hcounted k hk).mp hans).2.1.2
    have hlast := hrow (k - 1)
    rw [hmet, Nat.sub_add_cancel hk] at hlast
    obtain ⟨hvector, hsuits⟩ := hlast.suits_of_met (Pose.allows_turned hvalid.2.2 _)
    have hends : e' = endsAfter c first second st k := by
      rw [he', node_correct hk hans, hone]
      rfl
    rw [hends]
    refine ⟨?_, _, hvector, hsuits.side⟩
    rw [Vec.length_on_line hvector, abs_sub_comm]
    exact hsuits.near
  -- either it does not stall at the start, or it is pushed once and does not stall after that
  · by_cases hstall : p.Stalls cfg (x 0)
    · have hpushed : x 1 = p.pushed cfg (x 0) := by
        rw [hx, hx]
        rfl
      refine hmoving 1 ?_ (by omega)
      rw [hpushed]
      exact Pose.not_stalls_pushed hvalid.2.2 hlength.2 hstall (hslant hstall)
    · obtain ⟨k, hk, hle, hans⟩ := hmoving 0 hstall (by omega)
      exact ⟨k, hk, by omega, hans⟩
  · refine hrow.met_of_stalls fun i hi => ?_
    rw [hstart, ← hx]
    exact hstalls i (by omega)

/-- A bar on a base node that wants the length one and the angle `w`. -/
noncomputable def shortBar (x y w : ℝ) : Session ℝ :=
  run [.newConfig ⟨.int 3, 1, 1⟩, .newSystem (some 0), .node 0 0 0 { base := some true, mass := some none },
    .node 0 x y { mass := some none },
    .pair 0 0 1 { length := some (.number (.float 1)), angle := some (.number (.float w)) }]
    ⟨.empty ⟨.int 3, 1, 1⟩, .empty Level.warning⟩

theorem shortBar_valid : (⟨.int 3, 1, 1⟩ : Config ℝ).Valid := ⟨by decide, zero_lt_one, zero_lt_one⟩

/-- A bar at right angles to what it wants is left without a length, pushed, and posed. -/
theorem correct_poses_level : ∃ k, 1 ≤ k ∧ k ≤ 3 ∧ (correct 0).answer (shortBar 0 1 0) = .ok k := by
  have hslant : 2 * (Scalar.epsilon : ℝ) < (1 - Scalar.epsilon) * |Real.cos 0| := by
    change 2 * ((2 ^ 52 : ℕ) : ℝ)⁻¹ < (1 - ((2 ^ 52 : ℕ) : ℝ)⁻¹) * |Real.cos 0|
    norm_num
  have haimed : (shortBar 0 1 0).assembly.Aimed 0 0 1 ⟨.either, 1, 0⟩ := ⟨rfl, by decide, rfl, rfl⟩
  obtain ⟨-, hsoon, -⟩ := correct_poses (shortBar 0 1 0) (consistent_run (Assembly.consistent_empty _) _) 0 0 rfl 0 1
    ⟨.either, 1, 0⟩ haimed ⟨.int 3, 1, 1⟩ rfl shortBar_valid ⟨zero_lt_one, le_refl _⟩ _ _ rfl rfl (fun h => nomatch h)
    (fun _ => zero_lt_one) (Or.inr rfl) _ fun _ => rfl
  exact hsoon (by decide) fun _ => hslant

/-- What is wanted of a bar that is to be upright. -/
noncomputable def uprightPose : Pose := ⟨.either, 1, Real.pi / (1 + 1)⟩

theorem uprightPose_cos : Real.cos uprightPose.angle = 0 := by
  have hangle : uprightPose.angle = Real.pi / 2 := congrArg (Real.pi / ·) one_add_one_eq_two
  rw [hangle, Real.cos_pi_div_two]

/-- A push along the x-axis does not help it. -/
theorem uprightPose_stalls (sweeps : ℕ) :
    uprightPose.Stalls ⟨.int 3, 1, 1⟩ ((uprightPose.pushed ⟨.int 3, 1, 1⟩)^[sweeps] 0) := by
  have hkept : uprightPose.turned ⟨.int 3, 1, 1⟩ 0 = 0 :=
    Pose.Allows.turned ⟨abs_zero.trans_le zero_le_one, (mul_zero _).ge⟩
  have hpushed : uprightPose.pushed ⟨.int 3, 1, 1⟩ 0 = 0 := by
    rw [Pose.pushed, hkept, uprightPose_cos, mul_zero, add_zero]
  rw [Function.iterate_fixed hpushed, Pose.Stalls, hkept, abs_zero, sub_zero]
  exact ⟨Scalar.Signs.epsilon_pos.le, le_abs_self 1⟩

/-- A level bar that is to be upright is left without a length and pushed level again, in every sweep. -/
theorem correct_never_poses : (shortBar 1 0 uprightPose.angle).assembly.Consistent ∧
    ((shortBar 1 0 uprightPose.angle).assembly.system 0).constraints = [0] ∧
    (shortBar 1 0 uprightPose.angle).assembly.Aimed 0 0 1 uprightPose ∧
    (shortBar 1 0 uprightPose.angle).assembly.configOf 0 = ⟨.int 3, 1, 1⟩ ∧ (⟨.int 3, 1, 1⟩ : Config ℝ).Valid ∧
    3 ≤ (⟨.int 3, 1, 1⟩ : Config ℝ).cap ∧ 0 < uprightPose.length ∧
    uprightPose.length ≤ (⟨.int 3, 1, 1⟩ : Config ℝ).reach ∧
    (∀ n ∈ [0, 1], 0 < ((shortBar 1 0 uprightPose.angle).assembly.node n).mass) ∧
    ((shortBar 1 0 uprightPose.angle).assembly.node 1).base = false ∧
    (correct 0).answer (shortBar 1 0 uprightPose.angle) = .ok 0 := by
  have haimed : (shortBar 1 0 uprightPose.angle).assembly.Aimed 0 0 1 uprightPose := ⟨rfl, by decide, rfl, rfl⟩
  have hmass : ∀ n ∈ [0, 1], 0 < ((shortBar 1 0 uprightPose.angle).assembly.node n).mass := by
    rintro n hn
    obtain rfl | rfl : n = 0 ∨ n = 1 := by simpa using hn
    · exact zero_lt_one
    · exact zero_lt_one
  have hstart : advance (endsAfter 0 0 1 (shortBar 1 0 uprightPose.angle) 0).vector.toComplex uprightPose.angle = 0 := by
    have hvector : (endsAfter 0 0 1 (shortBar 1 0 uprightPose.angle) 0).vector.toComplex = (1 : ℝ) := by
      apply Complex.ext
      · exact sub_zero 1
      · exact sub_zero 0
    rw [hvector, advance_ofReal, uprightPose_cos, mul_zero]
  choose met hanswer hrow using
    answer_bareSweep_aimed haimed rfl (fun h => nomatch h) (fun _ => zero_lt_one) (Or.inr rfl) rfl shortBar_valid
  refine ⟨consistent_run (Assembly.consistent_empty _) _, rfl, haimed, rfl, shortBar_valid, by decide, zero_lt_one, le_refl _,
    hmass, rfl, (correct_lone rfl hanswer).2 fun k _ _ => Pose.Row.met_of_stalls hrow fun i _ => ?_⟩
  rw [hstart]
  exact uprightPose_stalls i

end Act

end Linkage
