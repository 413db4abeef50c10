import Linkage.Proofs.Following

/-!
# Linkage.Proofs.Closing — which lengths make a four-bar linkage

The joint of coupler and rocker is the upper one of two points in which two circles meet.  It is found from the length of
the coupler alone, and is at the length of the rocker from the other pivot because the lengths close (`FourBar.joint_eq`).
Lengths that do not close are refused.  The test for that lets through a crank as long as the ground with a coupler as long
as the rocker: there is nothing to bridge then, and building fails with a division by zero (`fourBar_builds`).
-/

namespace Linkage

open Act
open Assembly (Coherent)
open Mechanism (FourBar fourBar)

namespace Mechanism.FourBar

variable {l : FourBar ℝ}

/-- Coupler and rocker bridge the span, in the mathematical sense. -/
structure Bridged (l : FourBar ℝ) : Prop where
  least : |l.coupler - l.rocker| ≤ l.ground - l.crank
  most : l.ground - l.crank ≤ l.coupler + l.rocker

theorem closes_iff : l.closes = true ↔ l.Bridged := by
  unfold closes span
  rw [Bool.and_eq_true, decide_eq_true_iff, decide_eq_true_iff, Scalar.abs_real]
  exact ⟨fun ⟨hleast, hmost⟩ => ⟨hleast, hmost⟩, fun h => ⟨h.least, h.most⟩⟩

/-! ### The joint of coupler and rocker -/

/-- How far along the span coupler and rocker meet, as seen from the end of the crank. -/
noncomputable def along (l : FourBar ℝ) : ℝ :=
  (l.span * l.span + l.coupler * l.coupler - l.rocker * l.rocker) / (Scalar.two * l.span)

theorem Bridged.lengths (h : l.Bridged) : 0 ≤ l.coupler ∧ 0 ≤ l.rocker ∧ 0 ≤ l.span := by
  obtain ⟨hlonger, hshorter⟩ := abs_le.mp h.least
  have hmost := h.most
  refine ⟨by linarith, by linarith, ?_⟩
  change 0 ≤ l.ground - l.crank
  linarith

theorem mul_along (hspan : l.span ≠ 0) :
    2 * l.span * l.along = l.span * l.span + l.coupler * l.coupler - l.rocker * l.rocker := by
  unfold along
  rw [Scalar.two_real]
  exact mul_div_cancel₀ _ (mul_ne_zero two_ne_zero hspan)

/-- The coupler reaches at least as far as the joint is along the span: the square root is taken of nothing negative. -/
theorem Bridged.rest_nonneg (h : l.Bridged) (hspan : l.span ≠ 0) : 0 ≤ l.coupler ^ 2 - l.along ^ 2 := by
  obtain ⟨hcoupler, hrocker, hspan'⟩ := h.lengths
  obtain ⟨hlonger, hshorter⟩ : -l.span ≤ l.coupler - l.rocker ∧ l.coupler - l.rocker ≤ l.span := abs_le.mp h.least
  have hmost : l.span ≤ l.coupler + l.rocker := h.most
  have hpos : 0 < 2 * l.span := mul_pos two_pos (hspan'.lt_of_ne hspan.symm)
  have halong := mul_along hspan
  -- the difference of coupler and span is at most the rocker, and the rocker at most their sum
  have hbelow : (l.span - l.coupler) ^ 2 ≤ l.rocker ^ 2 := sq_le_sq' (by linarith) (by linarith)
  have habove : l.rocker ^ 2 ≤ (l.span + l.coupler) ^ 2 := pow_le_pow_left₀ hrocker (by linarith) 2
  refine sub_nonneg.mpr (sq_le_sq' (le_of_mul_le_mul_left ?_ hpos) (le_of_mul_le_mul_left ?_ hpos))
  · rw [halong]
    linarith
  · rw [halong]
    linarith

/-- Where the joint is: at the length of the coupler from the end of the crank and, as the lengths close, at the length of
the rocker from the other end of the span. -/
theorem joint_eq (h : l.Bridged) (hspan : l.span ≠ 0) : ∃ v : Vec ℝ, l.joint = .ok v ∧ 0 ≤ v.y ∧
    ‖v.toComplex‖ = l.coupler ∧ ‖v.toComplex - l.span‖ = l.rocker := by
  obtain ⟨hcoupler, hrocker, -⟩ := h.lengths
  have hrest := h.rest_nonneg hspan
  have hsquare := Real.sq_sqrt hrest
  have halong := mul_along hspan
  set rise := Real.sqrt (l.coupler ^ 2 - l.along ^ 2) with hrise
  -- it divides by twice the span, and takes a root of what is not negative, so that the clamp at zero does nothing
  refine ⟨⟨l.along, rise⟩, ?_, Real.sqrt_nonneg _, ?_, ?_⟩
  · have hdivide : Scalar.divide (l.span * l.span + l.coupler * l.coupler - l.rocker * l.rocker) (Scalar.two * l.span) =
        .ok l.along := by
      refine Scalar.divide_eq_ok.mpr ⟨?_, rfl⟩
      rw [Scalar.two_real]
      exact mul_ne_zero two_ne_zero hspan
    have habove : Scalar.max (l.coupler * l.coupler - l.along * l.along) 0 = l.coupler ^ 2 - l.along ^ 2 := by
      unfold Scalar.max
      rw [← sq, ← sq, if_neg (not_lt.mpr hrest)]
    unfold joint
    dsimp only
    rw [hdivide, hrise, ← habove]
    rfl
  · rw [← Vec.length_eq_norm]
    refine Vec.length_eq_of_sq hcoupler ?_
    dsimp only
    rw [hsquare, add_sub_cancel]
  · have hpart : (⟨l.along, rise⟩ : Vec ℝ).toComplex - l.span = (⟨l.along - l.span, rise⟩ : Vec ℝ).toComplex := by
      apply Complex.ext
      · rfl
      · exact sub_zero _
    rw [hpart, ← Vec.length_eq_norm]
    refine Vec.length_eq_of_sq hrocker ?_
    dsimp only
    rw [hsquare]
    linarith

/-- Where the joints of a four-bar linkage are when it is built. -/
structure Joined (l : FourBar ℝ) (A₀ B₀ A B : Vec ℝ) : Prop where
  hub : A₀ = ⟨0, 0⟩
  pivot : B₀ = ⟨l.ground, 0⟩
  pin : A = ⟨l.crank, 0⟩
  coupler : dist A.toComplex B.toComplex = l.coupler
  rocker : dist B₀.toComplex B.toComplex = l.rocker
  above : 0 ≤ B.y

/-- A joint that is right as seen from the end of the crank is right. -/
theorem joined {v : Vec ℝ} (habove : 0 ≤ v.y) (hcoupler : ‖v.toComplex‖ = l.coupler)
    (hrocker : ‖v.toComplex - l.span‖ = l.rocker) :
    l.Joined ⟨0, 0⟩ ⟨l.ground, 0⟩ ⟨l.crank, 0⟩ ⟨l.crank + v.x, v.y⟩ where
  hub := rfl
  pivot := rfl
  pin := rfl
  coupler := by
    rw [dist_comm, Complex.dist_eq, ← hcoupler]
    refine congrArg norm (Complex.ext ?_ ?_)
    · exact add_sub_cancel_left l.crank v.x
    · exact sub_zero v.y
  rocker := by
    rw [dist_comm, Complex.dist_eq, ← hrocker]
    refine congrArg norm (Complex.ext ?_ ?_)
    · change l.crank + v.x - l.ground = v.x - (l.ground - l.crank)
      ring
    · exact (sub_zero v.y).trans (sub_zero v.y).symm
  above := habove

/-- The joints of a four-bar linkage as it is drafted. -/
theorem Drafted.coords {v : Vec ℝ} {g : Gear} {pivot : NodeId} {rocker ground : ConstraintId} {upper : Combinator ℝ}
    {cfg : Config ℝ} {made : List Reference} {a : Assembly ℝ} (h : l.Drafted v g pivot rocker ground upper cfg made a) :
    Mechanism.coords ⟨"four-bar", g.system, g.driver, [("A0", g.hub), ("B0", pivot), ("A", g.pin), ("B", g.joint)]⟩ a =
      [("A0", ⟨0, 0⟩), ("B0", ⟨l.ground, 0⟩), ("A", ⟨l.crank, 0⟩), ("B", ⟨l.crank + v.x, v.y⟩)] := by
  simp only [Mechanism.coords, List.map_cons, List.map_nil, h.hub, h.anchor, h.pin, h.joint]
  rfl

end Mechanism.FourBar

/-! ### Building -/

section Building

variable {l : FourBar ℝ} {st : Session ℝ}

/-- Lengths that do not close are refused before anything is made. -/
theorem fourBar_refused {α : Type} [Scalar α] {l : FourBar α} (hopen : l.closes = false) (st : Session α) :
    fourBar l st = .error .openChain st := by
  unfold fourBar
  rw [hopen]
  rfl

/-- A joint that cannot be computed ends building before anything is made. -/
theorem fourBar_jointless {α : Type} [Scalar α] {l : FourBar α} (hcloses : l.closes = true) {fault : Fault α}
    (hjoint : l.joint = .error fault) (st : Session α) : fourBar l st = .error fault st := by
  unfold fourBar
  rw [hcloses, hjoint]
  rfl

/-- Where there is nothing to bridge, the joint cannot be computed. -/
theorem Mechanism.FourBar.joint_of_level (hspan : l.span = 0) : l.joint = .error .zeroDivision := by
  have hzero : Scalar.isZero ((Scalar.two : ℝ) * l.span) = true := by
    rw [Scalar.isZero_real, hspan, mul_zero]
  unfold joint Scalar.divide
  dsimp only
  rw [if_pos hzero]
  rfl

/-- The joints of a four-bar linkage as it is built. -/
theorem fourBar_joins {made : List Reference} (hcoherent : Coherent made st.assembly) (h : l.Bridged)
    (hspan : l.span ≠ 0) : ∃ m A₀ B₀ A B, (fourBar l).answer st = .ok m ∧
      m.coords ((fourBar l).after st).assembly = [("A0", A₀), ("B0", B₀), ("A", A), ("B", B)] ∧ l.Joined A₀ B₀ A B := by
  obtain ⟨v, hv, habove, hcoupler, hrocker⟩ := FourBar.joint_eq h hspan
  obtain ⟨g, pivot, rocker, ground, name, key, -, hanswer, hdraft⟩ :=
    (runs_fourBar hcoherent (FourBar.closes_iff.mpr h) hv).at_session
  exact ⟨_, _, _, _, _, hanswer, hdraft.coords, FourBar.joined habove hcoupler hrocker⟩

/-- What becomes of any four lengths, in every session: they are refused if they do not close; they fail with a division
by zero if they close with nothing to bridge, that is with a crank as long as the ground; and otherwise they make a
mechanism whose coupler and rocker meet exactly.  A failed build leaves the session as it was. -/
theorem fourBar_builds (ambient : Config ℝ) (journal : Journal ℝ) (ops : List (Operation ℝ))
    (hgenuine : Genuine [] ops ⟨.empty ambient, journal⟩) (st : Session ℝ) (hst : st = run ops ⟨.empty ambient, journal⟩)
    (l : FourBar ℝ) :
    (¬l.Bridged → fourBar l st = .error .openChain st) ∧
      (l.Bridged → l.ground = l.crank → fourBar l st = .error .zeroDivision st) ∧
      (l.Bridged → l.ground ≠ l.crank → 0 ≤ l.coupler ^ 2 - l.along ^ 2 ∧
        ∃ m A₀ B₀ A B, (fourBar l).answer st = .ok m ∧
          m.coords ((fourBar l).after st).assembly = [("A0", A₀), ("B0", B₀), ("A", A), ("B", B)] ∧
          l.Joined A₀ B₀ A B) := by
  have hcoherent := coherent_run_empty hgenuine
  rw [← hst] at hcoherent
  refine ⟨fun hopen => ?_, fun h hlevel => ?_, fun h hne => ?_⟩
  · exact fourBar_refused (Bool.eq_false_iff.mpr (mt FourBar.closes_iff.mp hopen)) st
  · have hspan : l.span = 0 := sub_eq_zero.mpr hlevel
    exact fourBar_jointless (FourBar.closes_iff.mpr h) (FourBar.joint_of_level hspan) st
  · have hspan : l.span ≠ 0 := sub_ne_zero.mpr hne
    exact ⟨h.rest_nonneg hspan, fourBar_joins hcoherent h hspan⟩

/-- The default lengths make a mechanism in a new session. -/
theorem fourBar_builds_default : ∃ m A₀ B₀ A B,
    (fourBar ⟨40, 10, 40, 30⟩).answer (newSession ⟨.int 256, 1 / 10, 1000000⟩) = .ok m ∧
      m.coords ((fourBar ⟨40, 10, 40, 30⟩).after (newSession ⟨.int 256, 1 / 10, 1000000⟩)).assembly =
        [("A0", A₀), ("B0", B₀), ("A", A), ("B", B)] ∧ FourBar.Joined ⟨40, 10, 40, 30⟩ A₀ B₀ A B := by
  have hbridged : FourBar.Bridged ⟨40, 10, 40, 30⟩ := FourBar.closes_iff.mp Rock.closes_default
  have hne : (40 : ℝ) ≠ 10 := by norm_num
  obtain ⟨-, -, hbuilds⟩ := fourBar_builds ⟨.int 256, 1 / 10, 1000000⟩ (.empty Level.warning) [] trivial
    (newSession ⟨.int 256, 1 / 10, 1000000⟩) rfl ⟨40, 10, 40, 30⟩
  exact (hbuilds hbridged hne).2

/-- A crank as long as the ground, with a coupler as long as the rocker: building is neither refused nor done. -/
theorem fourBar_divides : (fourBar ⟨10, 10, 5, 5⟩).answer (newSession ⟨.int 256, 1 / 10, 1000000⟩) =
    .error .zeroDivision ∧ (Fault.zeroDivision : Fault ℝ).category ≠ (Fault.openChain : Fault ℝ).category := by
  have hbridged : FourBar.Bridged ⟨10, 10, 5, 5⟩ := by
    refine ⟨?_, ?_⟩
    · norm_num
    · norm_num
  have hfails := fourBar_jointless (FourBar.closes_iff.mpr hbridged) (FourBar.joint_of_level (sub_self (10 : ℝ)))
    (newSession ⟨.int 256, 1 / 10, 1000000⟩)
  refine ⟨?_, fun h => ?_⟩
  · unfold answer
    rw [hfails]
  · cases h

end Building

end Linkage
