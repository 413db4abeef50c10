import Linkage.Proofs.Projection

/-!
# Linkage.Proofs.Reversal — a pair seen from its other end

A pair joins its nodes in an order: the wanted angle is that of the vector from the first to the second, and the first
one moves along a correction where the second moves against it.  Exchanging the nodes and turning the wanted angle by
half a turn reverses the vector between the ends, the heading and every correction, and exchanges the shares, so each
pass does to the exchanged ends what it did to the ends (`Turns.swap`, `lengthPass_swap`).  The one exception are ends
that are too near each other to have a direction, as both pairs stretch these along the x-axis.  So a correction cannot
tell the two pairs apart (`correctOne_reversed`).
-/

namespace Linkage

/-! ### Vectors and ends the other way round -/

section Definitions

variable {α : Type}

def Vec.reverse [Scalar α] (v : Vec α) : Vec α := ⟨-v.x, -v.y⟩

/-- The ends in the other order. -/
def Ends.swap (e : Ends α) : Ends α := ⟨e.second, e.first⟩

/-- The other order puts the ends where they were. -/
theorem Ends.put_swap {first second : NodeId} (hne : first ≠ second) (e : Ends α) (node : NodeId → Node α) :
    e.swap.put second first node = e.put first second node := by
  funext n
  unfold put swap
  by_cases hfirst : first = n
  · subst hfirst
    rw [if_pos rfl, if_neg hne.symm, if_pos rfl]
  · rw [if_neg hfirst, if_neg hfirst]

end Definitions

section Reverse

variable {v : Vec ℝ} {e : Ends ℝ}

theorem Vec.length_reverse (v : Vec ℝ) : v.reverse.length = v.length := by
  unfold length reverse
  rw [Scalar.hypot_real, Scalar.hypot_real, neg_sq, neg_sq]

theorem Ends.vector_swap (e : Ends ℝ) : e.swap.vector = e.vector.reverse := by
  unfold vector swap Node.vectorTo Vec.reverse
  rw [neg_sub, neg_sub]

theorem Ends.length_vector_swap (e : Ends ℝ) : e.swap.vector.length = e.vector.length := by
  rw [vector_swap, Vec.length_reverse]

theorem Ends.shift_swap (e : Ends ℝ) (share : ℝ × ℝ) (d : Vec ℝ) :
    (e.shift share d).swap = e.swap.shift share.swap d.reverse := by
  simp only [shift, swap, Node.moveTo, Vec.reverse, Prod.fst_swap, Prod.snd_swap, mul_neg, sub_neg_eq_add,
    ← sub_eq_add_neg]

theorem Ends.addBoost_swap (e : Ends ℝ) : e.addBoost.swap = e.swap.addBoost := rfl

theorem Scalar.heading_add_pi (w : ℝ) : Scalar.heading (w + Real.pi) = .ok (Vec.reverse ⟨Real.cos w, Real.sin w⟩) := by
  rw [heading_real, Real.cos_add_pi, Real.sin_add_pi]
  rfl

/-- What is taken from a reversed vector along a reversed heading is what was taken, the other way round. -/
theorem Direction.correction_reverse (direction : Direction) (v heading : Vec ℝ) :
    direction.correction v.reverse heading.reverse = (direction.correction v heading).reverse := by
  have hacross : -(-v.x) * -heading.y + -v.y * -heading.x = -v.x * heading.y + v.y * heading.x := by ring
  have halong : -v.x * -heading.x + -v.y * -heading.y = v.x * heading.x + v.y * heading.y := by ring
  unfold correction Vec.reverse
  dsimp only
  rw [hacross, halong]
  split
  · rw [mul_neg, mul_neg, neg_mul, neg_neg]
  · simp only [Vec.mk.injEq]
    constructor
    · ring
    · ring

/-- A vector that is long enough to have a direction has the opposite one when it is reversed. -/
theorem Vec.direction_reverse {u : Vec ℝ} (hlong : Scalar.epsilon < v.length) (hu : v.direction = .ok u) :
    v.reverse.direction = .ok u.reverse := by
  unfold direction at hu ⊢
  dsimp only at hu ⊢
  rw [if_pos hlong] at hu
  rw [length_reverse, if_pos hlong]
  obtain ⟨x, hx, hu⟩ := ok_of_bind hu
  obtain ⟨y, hy, hu⟩ := ok_of_bind hu
  cases hu
  obtain ⟨hne, rfl⟩ := Scalar.divide_eq_ok.mp hx
  obtain ⟨-, rfl⟩ := Scalar.divide_eq_ok.mp hy
  have hquotient (x : ℝ) : Scalar.divide (-x) v.length = .ok (-(x / v.length)) :=
    Scalar.divide_eq_ok.mpr ⟨hne, (neg_div _ _).symm⟩
  change (do return ⟨← Scalar.divide (-v.x) v.length, ← Scalar.divide (-v.y) v.length⟩ : Except (Fault ℝ) (Vec ℝ)) = _
  rw [hquotient, hquotient]
  rfl

/-! ### Shares -/

theorem shares_comm {p q : ℝ} {share : ℝ × ℝ} (h : shares p q = .ok share) : shares q p = .ok share.swap := by
  unfold shares at h ⊢
  dsimp only at h ⊢
  rw [add_comm q p]
  split at h
  case isTrue hzero =>
    cases h
    rw [if_pos hzero]
    rfl
  case isFalse hsum =>
    obtain ⟨s₁, hs₁, h⟩ := ok_of_bind h
    obtain ⟨s₂, hs₂, h⟩ := ok_of_bind h
    cases h
    rw [if_neg hsum, hs₂, hs₁]
    rfl

theorem Ends.shares_swap {share : ℝ × ℝ} (h : e.shares = .ok share) : e.swap.shares = .ok share.swap := by
  obtain ⟨p, hp, h⟩ := ok_of_bind h
  obtain ⟨q, hq, h⟩ := ok_of_bind h
  unfold shares swap
  dsimp only
  rw [hq, hp]
  exact shares_comm h

/-- Each end is a base node or has a positive effective mass. -/
structure Ends.Weighty (e : Ends ℝ) : Prop where
  first : e.first.base = false → 0 < e.first.effectiveMass
  second : e.second.base = false → 0 < e.second.effectiveMass

theorem Ends.Weighty.exists_shares (h : e.Weighty) : ∃ share, e.shares = .ok share := by
  obtain ⟨share, hshare⟩ := Linkage.exists_shares e.first.mobility e.second.mobility
  refine ⟨share, ?_⟩
  unfold shares
  rw [Node.inverseMass_eq h.first, Node.inverseMass_eq h.second]
  exact hshare

theorem Ends.Weighty.shift (h : e.Weighty) (share : ℝ × ℝ) (d : Vec ℝ) : (e.shift share d).Weighty :=
  ⟨h.first, h.second⟩

theorem Node.effectiveMass_addBoost_pos {n : Node ℝ} (h : n.base = false → 0 < n.effectiveMass)
    (hfree : n.addBoost.base = false) : 0 < n.addBoost.effectiveMass := by
  unfold addBoost at hfree ⊢
  split
  case isTrue hbase =>
    rw [if_pos hbase, hbase] at hfree
    cases hfree
  case isFalse hbase =>
    have hpos : 0 < n.mass + n.boost := h (Bool.eq_false_iff.mpr hbase)
    change 0 < n.mass + (n.boost + 1)
    linarith

theorem Ends.Weighty.addBoost (h : e.Weighty) : e.addBoost.Weighty :=
  ⟨Node.effectiveMass_addBoost_pos h.first, Node.effectiveMass_addBoost_pos h.second⟩

end Reverse

/-! ### Passes -/

section Passes

variable {cfg : Config ℝ} {direction : Direction} {share : ℝ × ℝ} {w : ℝ} {e e' : Ends ℝ} {pulled met : Bool}

theorem Pulls.swap (h : Pulls cfg share e pulled e') : Pulls cfg share.swap e.swap pulled e'.swap := by
  have hlength := e.length_vector_swap
  cases h with
  | within near => exact .within (by rwa [hlength])
  | beyond far d along above =>
    obtain ⟨hne, hx⟩ := Scalar.divide_eq_ok.mp along
    obtain ⟨-, hy⟩ := Scalar.divide_eq_ok.mp above
    rw [Ends.shift_swap, ← hlength]
    refine .beyond (by rwa [hlength]) d.reverse ?_ ?_
    · refine Scalar.divide_eq_ok.mpr ⟨by rwa [hlength], ?_⟩
      rw [hlength, e.vector_swap, Vec.reverse, Vec.reverse, hx, mul_neg, neg_div]
    · refine Scalar.divide_eq_ok.mpr ⟨by rwa [hlength], ?_⟩
      rw [hlength, e.vector_swap, Vec.reverse, Vec.reverse, hy, mul_neg, neg_div]

/-- Turning exchanged ends towards the opposite angle. -/
theorem Turns.swap (h : Turns cfg direction w e met e') : Turns cfg direction (w + Real.pi) e.swap met e'.swap := by
  cases h with
  | turned heading share pulled e'' towards shared pulls =>
    obtain rfl : ⟨Real.cos w, Real.sin w⟩ = heading := Except.ok.inj towards
    have hcorrection := direction.correction_reverse e.vector ⟨Real.cos w, Real.sin w⟩
    rw [← e.vector_swap] at hcorrection
    have hpulls := pulls.swap
    rw [Ends.shift_swap, ← hcorrection] at hpulls
    have hturns := Turns.turned _ _ _ _ (Scalar.heading_add_pi w) (Ends.shares_swap shared) hpulls
    rw [hcorrection, ← Ends.addBoost_swap] at hturns
    simpa only [Vec.reverse, Scalar.abs_real, abs_neg] using hturns

theorem Turns.weighty (h : Turns cfg direction w e met e') (hweighty : e.Weighty) : e'.Weighty := by
  cases h with
  | turned heading share pulled e'' towards shared pulls =>
    cases pulls with
    | within near => exact (hweighty.shift _ _).addBoost
    | beyond far d along above => exact ((hweighty.shift _ _).shift _ _).addBoost

/-- Ends with masses are turned, whichever comes first. -/
theorem anglePass_swap (hreach : 0 < cfg.reach) (hweighty : e.Weighty) (direction : Direction) (w : ℝ) :
    ∃ met e', anglePass cfg direction w e = .ok met e' ∧ e'.Weighty ∧
      anglePass cfg direction (w + Real.pi) e.swap = .ok met e'.swap := by
  obtain ⟨share, hshare⟩ := hweighty.exists_shares
  obtain ⟨met, e', hpass⟩ : ∃ met e', anglePass cfg direction w e = .ok met e' :=
    anglePass_succeeds_of_shares hreach hshare rfl
  have hturns := turns_of_anglePass hpass
  exact ⟨met, e', hpass, hturns.weighty hweighty, anglePass_of_turns hturns.swap⟩

/-- Ends with masses are stretched, whichever comes first, unless they are too near each other. -/
theorem lengthPass_swap (hlong : Scalar.epsilon < e.vector.length) (hweighty : e.Weighty) (target : ℝ) :
    ∃ met e', lengthPass cfg target e = .ok met e' ∧ lengthPass cfg target e.swap = .ok met e'.swap := by
  obtain ⟨share, hshare⟩ := hweighty.exists_shares
  by_cases near : Scalar.abs (target - e.vector.length) < cfg.tolerance
  · exact ⟨true, e, lengthPass_of_near near, lengthPass_of_near (by rwa [e.length_vector_swap])⟩
  · have hdirection := e.vector.direction_eq
    have hdirection' := Vec.direction_reverse hlong hdirection
    rw [← e.vector_swap] at hdirection'
    refine ⟨false, _, lengthPass_of_far near hdirection hshare, ?_⟩
    rw [lengthPass_of_far (by rwa [e.length_vector_swap]) hdirection' (Ends.shares_swap hshare), e.length_vector_swap,
      Ends.addBoost_swap, Ends.shift_swap]
    simp only [Vec.reverse, mul_neg]

/-- Ends with masses are turned towards the opposite angle, if one is wanted at all. -/
theorem toward_anglePass_swap (hreach : 0 < cfg.reach) (hweighty : e.Weighty) (direction : Direction)
    (angle? : Option ℝ) : ∃ met e', Pass.toward (anglePass cfg direction) angle? e = .ok met e' ∧ e'.Weighty ∧
      Pass.toward (anglePass cfg direction) (angle?.map (· + Real.pi)) e.swap = .ok met e'.swap := by
  cases angle? with
  | none => exact ⟨true, e, rfl, hweighty, rfl⟩
  | some w => exact anglePass_swap hreach hweighty direction w

theorem toward_lengthPass_swap (cfg : Config ℝ) {length? : Option ℝ} (hlong : length?.isSome → Scalar.epsilon < e.vector.length)
    (hweighty : e.Weighty) : ∃ met e', Pass.toward (lengthPass cfg) length? e = .ok met e' ∧
      Pass.toward (lengthPass cfg) length? e.swap = .ok met e'.swap := by
  cases length? with
  | none => exact ⟨true, e, rfl, rfl⟩
  | some target => exact lengthPass_swap (hlong rfl) hweighty target

end Passes

/-! ### Corrections -/

/-- A pair from one node to another that wants a fixed length and a fixed angle, or one of them, or none. -/
structure Assembly.Pairs (a : Assembly ℝ) (c : ConstraintId) (first second : NodeId) (direction : Direction)
    (length? angle? : Option ℝ) : Prop where
  shape : (a.constraint c).shape = .pair first second direction
  length : (a.constraint c).lengthTarget = length?.map .fixed
  angle : (a.constraint c).angleTarget = angle?.map .fixed

namespace Act

/-- What the first half of a correction leaves of the ends. -/
theorem ends_turnOne {st : Session ℝ} {c : ConstraintId} {first second : NodeId} {direction : Direction}
    {length? angle? : Option ℝ} {met : Bool} {e e' : Ends ℝ} (h : st.assembly.Pairs c first second direction length? angle?)
    (hne : first ≠ second) (he : e = ⟨st.assembly.node first, st.assembly.node second⟩)
    (hturn : Pass.toward (anglePass (st.assembly.configOf c) direction) angle? e = .ok met e') :
    (⟨((turnOne c).after st).assembly.node first, ((turnOne c).after st).assembly.node second⟩ : Ends ℝ) = e' := by
  rw [he] at hturn
  obtain ⟨-, hnode⟩ := (runs_turnOne_toward h.shape (runs_targetAngle_fixed_node h.angle) hturn).at_session
  rw [hnode, Ends.put_first hne, Ends.put_second]

/-- In exact arithmetic, take two pairs of the same two nodes, in the same state and with the same valid configuration, where
the one lists the nodes in the other order and wants the angle half a turn on.  If the nodes have masses and, where a length
is wanted, are not too near each other for a direction when it comes to that, both corrections succeed with the same
answer and leave every node alike. -/
theorem correctOne_reversed (st st' : Session ℝ) (c d : ConstraintId) (first second : NodeId) (hne : first ≠ second)
    (direction : Direction) (length? angle? : Option ℝ)
    (hpair : st.assembly.Pairs c first second direction length? angle?)
    (hreversed : st'.assembly.Pairs d second first direction length? (angle?.map (· + Real.pi)))
    (hnode : st'.assembly.node = st.assembly.node) (cfg : Config ℝ) (hcfg : cfg = st.assembly.configOf c)
    (hcfg' : cfg = st'.assembly.configOf d) (hvalid : cfg.Valid) (e e' : Ends ℝ)
    (he : e = ⟨st.assembly.node first, st.assembly.node second⟩) (hweighty : e.Weighty)
    (he' : e' = ⟨((turnOne c).after st).assembly.node first, ((turnOne c).after st).assembly.node second⟩)
    (hlong : length?.isSome → Scalar.epsilon < e'.vector.length) :
    ∃ met, (correctOne c).answer st = .ok met ∧ (correctOne d).answer st' = .ok met ∧
      ((correctOne d).after st').assembly.node = ((correctOne c).after st).assembly.node := by
  obtain ⟨-, -, hreach⟩ := hvalid
  -- each pass on the ends the other way round, towards the target half a turn on, is the mirror image of the pass
  obtain ⟨angleMet, turned, hturn, hweighty', hturn'⟩ := toward_anglePass_swap hreach hweighty direction angle?
  have hends : e' = turned := by
    rw [hcfg] at hturn
    exact he'.trans (ends_turnOne hpair hne he hturn)
  rw [hends] at hlong
  obtain ⟨lengthMet, stretched, hstretch, hstretch'⟩ := toward_lengthPass_swap cfg hlong hweighty'
  have hswap : e.swap = ⟨st'.assembly.node second, st'.assembly.node first⟩ := by
    rw [he, hnode]
    rfl
  rw [hcfg, he] at hturn
  rw [hcfg] at hstretch
  rw [hcfg', hswap] at hturn'
  rw [hcfg'] at hstretch'
  obtain ⟨hanswer, hafter⟩ := (runs_correctOne_toward hpair.shape hne (runs_targetAngle_fixed_node hpair.angle)
    hpair.length hturn hstretch).at_session
  obtain ⟨hanswer', hafter'⟩ := (runs_correctOne_toward hreversed.shape hne.symm
    (runs_targetAngle_fixed_node hreversed.angle) hreversed.length hturn' hstretch').at_session
  refine ⟨lengthMet && angleMet, hanswer, hanswer', ?_⟩
  rw [hafter, hafter', hnode, Ends.put_swap hne]

/-- Two bars on the same free nodes, one of them heavier by a correction.  Both settle against their wanted angle, where
they are not, and want a shorter length. -/
noncomputable def opposedBars : Session ℝ :=
  let shorter : Spec ℝ := .number (.float 1)
  run [.newConfig ⟨.int 1, 1, 1 + 1⟩, .newSystem (some 0), .node 0 (-1) 0 { mass := some none },
    .node 0 1 0 { mass := some none }, .modifyNode 1 Node.addBoost,
    .pair 0 0 1 { length := some shorter, angle := some (.number (.float 0)), direction := some (.int (-1)) },
    .pair 0 1 0 { length := some shorter, angle := some (.number (.float (0 + Real.pi))), direction := some (.int (-1)) }]
    ⟨.empty ⟨.int 1, 1, 1⟩, .empty Level.warning⟩

theorem correctOne_reversed_opposed : ∃ met, (correctOne 0).answer opposedBars = .ok met ∧
    (correctOne 1).answer opposedBars = .ok met ∧
      ((correctOne 1).after opposedBars).assembly.node = ((correctOne 0).after opposedBars).assembly.node := by
  have hvalid : (⟨.int 1, 1, 1 + 1⟩ : Config ℝ).Valid := ⟨by decide, zero_lt_one, by norm_num⟩
  have hpair : opposedBars.assembly.Pairs 0 0 1 .against (some 1) (some 0) := ⟨rfl, rfl, rfl⟩
  set e : Ends ℝ := ⟨opposedBars.assembly.node 0, opposedBars.assembly.node 1⟩
  have hmobile : e.Mobile := by
    refine ⟨fun _ => ?_, fun _ => ?_, Or.inl rfl⟩
    · change (0 : ℝ) < 1 + 0
      norm_num
    · change (0 : ℝ) < 1 + (0 + 1)
      norm_num
  obtain ⟨met, turned, hturn⟩ : ∃ met turned, anglePass ⟨.int 1, 1, 1 + 1⟩ .against 0 e = .ok met turned :=
    anglePass_succeeds_of_shares hvalid.2.2 hmobile.shares_eq rfl
  obtain ⟨hprojected, -⟩ := (turns_of_anglePass hturn).projected hmobile hvalid.2.1 hvalid.2.2
  have hadvance : |advance e.vector.toComplex 0| = 1 + 1 := by
    change |(1 - -1) * Real.cos 0 + (0 - 0) * Real.sin 0| = 1 + 1
    rw [Real.cos_zero, Real.sin_zero, mul_one, sub_self, zero_mul, add_zero, sub_neg_eq_add]
    exact abs_of_pos (by norm_num)
  have hlength : turned.vector.length = 1 + 1 := by
    rw [Vec.length_eq_norm, hprojected.near hadvance.le, norm_projection, hadvance]
  refine correctOne_reversed opposedBars opposedBars 0 1 0 1 (by decide) .against (some 1) (some 0) hpair ⟨rfl, rfl, rfl⟩
    rfl _ rfl rfl hvalid e turned rfl ⟨hmobile.first, hmobile.second⟩ (ends_turnOne hpair (by decide) rfl hturn).symm
    fun _ => ?_
  rw [hlength]
  change (((2 ^ 52 : ℕ) : ℝ))⁻¹ < 1 + 1
  norm_num

end Act

end Linkage
