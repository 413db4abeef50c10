import Linkage.Proofs.Exact
import Linkage.Proofs.Working

/-!
# Linkage.Proofs.Displacement — how far a correction that is accepted moves nodes

A constraint that answers that it is met may have moved its nodes before.  In exact arithmetic the moves are parts of one
vector shorter than three tolerances: two for the part across the target line and one for what brings a pair within
reach (`Turns.drift`, `Swings.carries`).  The parts that two nodes take differ by at most one, so the vector between any
two nodes changes by less than three tolerances, too (`Corrects.vectorTo_sub`).  What a pair has itself after it was
met is its length up to one tolerance (`Corrects.near`), and its angle up to two (`Corrects.offset_lt`).
-/

namespace Linkage

/-- Work leaves a heavy node heavy. -/
theorem Node.Worked.heavy {v w : Node ℝ} (h : v.Worked w) (hv : v.Heavy) : w.Heavy := by
  refine h.preserves (P := Node.Heavy) (fun _ _ _ hv => hv) ?_ ?_ hv
  · intro v hv
    unfold addBoost
    split
    case isTrue => exact hv
    case isFalse hfree =>
      obtain ⟨hmass, hboost⟩ := hv.resolve_left hfree
      exact Or.inr ⟨hmass, add_nonneg hboost zero_le_one⟩
  · intro v hv
    unfold clearBoost
    split
    case isTrue => exact hv
    case isFalse hfree => exact Or.inr ⟨(hv.resolve_left hfree).1, le_refl _⟩

/-! ### Ends of a pair -/

/-- The ends are moved along `d` by their shares, and nothing else is done to their places. -/
structure Ends.Drifts (share : ℝ × ℝ) (d : ℂ) (e e' : Ends ℝ) : Prop where
  first : e'.first.place = e.first.place + share.1 * d
  second : e'.second.place = e.second.place - share.2 * d

namespace Ends

variable {share : ℝ × ℝ} {d d' : ℂ} {e e' e'' : Ends ℝ}

theorem Drifts.trans (h : Drifts share d e e') (h' : Drifts share d' e' e'') : Drifts share (d + d') e e'' where
  first := by rw [h'.first, h.first]; ring
  second := by rw [h'.second, h.second]; ring

theorem drifts_shift (share : ℝ × ℝ) (d : Vec ℝ) (e : Ends ℝ) : Drifts share d.toComplex e (e.shift share d) where
  first := by apply Complex.ext <;> simp [shift, Node.place, Node.moveTo, Vec.toComplex]
  second := by apply Complex.ext <;> simp [shift, Node.place, Node.moveTo, Vec.toComplex]

theorem shift_zero (share : ℝ × ℝ) (e : Ends ℝ) : e.shift share ⟨0, 0⟩ = e := by
  unfold shift Node.moveTo
  rw [mul_zero, mul_zero, add_zero, add_zero, sub_zero, sub_zero]

theorem drifts_zero (share : ℝ × ℝ) (e : Ends ℝ) : Drifts share 0 e e := ⟨by simp, by simp⟩

theorem Drifts.addBoost (h : Drifts share d e e') : Drifts share d e e'.addBoost := by
  constructor
  · rw [← h.first]
    exact Node.place_addBoost _
  · rw [← h.second]
    exact Node.place_addBoost _

theorem vector_of_place (hfirst : e'.first.place = e.first.place) (hsecond : e'.second.place = e.second.place) :
    e'.vector.toComplex = e.vector.toComplex := by
  unfold Ends.vector
  rw [Node.toComplex_vectorTo, Node.toComplex_vectorTo, hfirst, hsecond]

theorem vector_addBoost (e : Ends ℝ) : e.addBoost.vector.toComplex = e.vector.toComplex :=
  vector_of_place (Node.place_addBoost _) (Node.place_addBoost _)

/-- The vector between the ends gets shorter by the sum of the shares of what they are moved along. -/
theorem Drifts.vector (h : Drifts share d e e') :
    e'.vector.toComplex = e.vector.toComplex - (share.1 + share.2 : ℝ) * d := by
  unfold Ends.vector
  rw [Node.toComplex_vectorTo, Node.toComplex_vectorTo, h.first, h.second, Complex.ofReal_add]
  ring

theorem Drifts.offset (h : Drifts share d e e') (w : ℝ) :
    offset e'.vector.toComplex w = offset e.vector.toComplex w - (share.1 + share.2) * Linkage.offset d w := by
  rw [h.vector, offset_sub, offset_mul]

end Ends

/-- What is taken from a vector has the offset that the vector has. -/
theorem offset_correction (direction : Direction) (v : Vec ℝ) (w : ℝ) :
    offset (direction.correction v ⟨Real.cos w, Real.sin w⟩).toComplex w = offset v.toComplex w := by
  unfold Direction.correction offset Vec.toComplex
  dsimp only
  split
  · linear_combination (-v.x * Real.sin w + v.y * Real.cos w) * Real.sin_sq_add_cos_sq w
  · linear_combination (-v.x * Real.sin w + v.y * Real.cos w) * Real.sin_sq_add_cos_sq w

variable {cfg : Config ℝ} {e e' : Ends ℝ} {share : ℝ × ℝ}

/-- Pulling ends within reach, where that is accepted, moves them by less than the tolerance, and does not turn the
vector between them. -/
theorem Pulls.drift (h : Pulls cfg share e false e') (hshare : Fair share) (htolerance : 0 < cfg.tolerance)
    (hreach : 0 < cfg.reach) : ∃ d : ℂ, ‖d‖ < cfg.tolerance ∧ e.Drifts share d e' ∧
      ∀ w, |offset e'.vector.toComplex w| ≤ |offset e.vector.toComplex w| := by
  generalize hpulled : false = pulled at h
  cases h with
  | within => exact ⟨0, by simpa using htolerance, Ends.drifts_zero share e, fun w => le_refl _⟩
  | beyond far d along above =>
    set r := e.vector.length with hr
    have hpos : 0 < r := hreach.trans far
    obtain ⟨-, hdx⟩ := Scalar.divide_eq_ok.mp along
    obtain ⟨-, hdy⟩ := Scalar.divide_eq_ok.mp above
    -- the part of the vector that sticks out
    have hpart : d.toComplex = ((r - cfg.reach) / r : ℝ) * e.vector.toComplex := by
      apply Complex.ext
      · rw [Complex.re_ofReal_mul]
        change d.x = _ * e.vector.x
        rw [hdx]
        ring
      · rw [Complex.im_ofReal_mul]
        change d.y = _ * e.vector.y
        rw [hdy]
        ring
    have hnear : |cfg.reach - r| < cfg.tolerance := by
      have hfalse := of_decide_eq_false hpulled.symm
      exact not_le.mp hfalse
    have hless : (r - cfg.reach) / r ≤ 1 := (div_le_one hpos).mpr (by linarith)
    have hmore : 0 ≤ (r - cfg.reach) / r := div_nonneg (by linarith) hpos.le
    refine ⟨d.toComplex, ?_, Ends.drifts_shift share d e, fun w => ?_⟩
    · rw [hpart, norm_mul, ← Vec.length_eq_norm, ← hr, Complex.norm_real, Real.norm_of_nonneg hmore,
        div_mul_cancel₀ _ hpos.ne']
      rw [abs_sub_comm] at hnear
      exact (le_abs_self _).trans_lt hnear
    · rw [(Ends.drifts_shift share d e).offset, hpart, offset_mul, ← mul_assoc, ← one_sub_mul, abs_mul]
      have hparts : 0 ≤ (share.1 + share.2) * ((r - cfg.reach) / r) :=
        mul_nonneg (add_nonneg hshare.first hshare.second) hmore
      have hparts' : (share.1 + share.2) * ((r - cfg.reach) / r) ≤ 1 := mul_le_one₀ hshare.sum_le_one hmore hless
      exact mul_le_of_le_one_left (abs_nonneg _) (abs_le.mpr ⟨by linarith, by linarith⟩)

/-- Turning ends onto a line, where that is accepted, moves them by less than three tolerances, and leaves the second as
seen from the first within two of the line. -/
theorem Turns.drift {direction : Direction} {w : ℝ} (h : Turns cfg direction w e true e') (hfirst : e.first.Heavy)
    (hsecond : e.second.Heavy) (htolerance : 0 < cfg.tolerance) (hreach : 0 < cfg.reach) :
    ∃ (share : ℝ × ℝ) (d : ℂ), Fair share ∧ ‖d‖ < 3 * cfg.tolerance ∧ e.Drifts share d e' ∧
      |offset e'.vector.toComplex w| < 2 * cfg.tolerance := by
  generalize hmet : true = met at h
  cases h with
  | turned heading share pulled e'' towards shared pulls =>
    obtain rfl : ⟨Real.cos w, Real.sin w⟩ = heading := Except.ok.inj towards
    set d := direction.correction e.vector ⟨Real.cos w, Real.sin w⟩ with hd
    obtain ⟨⟨hpulled, hx⟩, hy⟩ : (pulled = false ∧ |d.x| < cfg.tolerance) ∧ |d.y| < cfg.tolerance := by
      simpa using hmet.symm
    subst hpulled
    have hshare : Fair share := Ends.fair hfirst hsecond shared
    obtain ⟨d', hd', hdrifts, hturned⟩ := pulls.drift hshare htolerance hreach
    have hshift := Ends.drifts_shift share d e
    have hnorm : ‖d.toComplex‖ < 2 * cfg.tolerance := by
      have := Complex.norm_le_abs_re_add_abs_im d.toComplex
      change _ ≤ |d.x| + |d.y| at this
      linarith
    refine ⟨share, d.toComplex + d', hshare, ?_, (hshift.trans hdrifts).addBoost, ?_⟩
    · have := norm_add_le d.toComplex d'
      linarith
    · have hoffset : offset d.toComplex w = offset e.vector.toComplex w := offset_correction direction e.vector w
      rw [e''.vector_addBoost]
      refine (hturned w).trans_lt ?_
      rw [hshift.offset, hoffset]
      rcases hshare.sum with hsum | hsum
      · rw [hsum, one_mul, sub_self, abs_zero]
        linarith
      · -- two nodes that cannot move are where they should be
        rw [hsum, zero_mul, sub_zero, ← hoffset]
        exact (abs_offset_le _ w).trans_lt hnorm

/-! ### All nodes -/

/-- All nodes are moved along one vector shorter than `bound`, by parts that differ by one at most. -/
def Carries (bound : ℝ) (node node' : NodeId → Node ℝ) : Prop :=
  ∃ (d : ℂ) (part : NodeId → ℝ) (least : ℝ), ‖d‖ < bound ∧ (∀ n, least ≤ part n ∧ part n ≤ least + 1) ∧
    ∀ n, (node' n).place = (node n).place + part n * d

section Carries

variable {bound : ℝ} {node mid node' : NodeId → Node ℝ}

theorem carries_refl (hbound : 0 < bound) (node : NodeId → Node ℝ) : Carries bound node node :=
  ⟨0, fun _ => 0, 0, by simpa using hbound, fun _ => ⟨le_refl _, zero_le_one.trans_eq (zero_add 1).symm⟩,
    fun n => by simp⟩

/-- The vector from one node to another changes by less than the bound. -/
theorem Carries.vectorTo_sub (h : Carries bound node node') (p q : NodeId) :
    ‖((node' p).vectorTo (node' q)).toComplex - ((node p).vectorTo (node q)).toComplex‖ < bound := by
  obtain ⟨d, part, least, hd, hpart, hplace⟩ := h
  have hchange : ((node' p).vectorTo (node' q)).toComplex - ((node p).vectorTo (node q)).toComplex =
      (part q - part p : ℝ) * d := by
    rw [Node.toComplex_vectorTo, Node.toComplex_vectorTo, hplace, hplace, Complex.ofReal_sub]
    ring
  have hparts : |part q - part p| ≤ 1 := by
    have := hpart p
    have := hpart q
    exact abs_le.mpr ⟨by linarith, by linarith⟩
  rw [hchange, norm_mul, Complex.norm_real, Real.norm_eq_abs]
  exact (mul_le_of_le_one_left (norm_nonneg d) hparts).trans_lt hd

theorem Ends.Drifts.carries {first second : NodeId} {share : ℝ × ℝ} {d : ℂ} {e : Ends ℝ}
    (h : Ends.Drifts share d ⟨node first, node second⟩ e) (hshare : Fair share) (hd : ‖d‖ < bound) :
    Carries bound node (e.put first second node) := by
  have hsum := hshare.sum_le_one
  have hfirst := hshare.first
  have hsecond := hshare.second
  refine ⟨d, fun n => if second = n then -share.2 else if first = n then share.1 else 0, -share.2, hd,
    fun n => ?_, fun n => ?_⟩
  · dsimp only
    split
    · exact ⟨le_refl _, by linarith⟩
    · split
      · exact ⟨by linarith, by linarith⟩
      · exact ⟨by linarith, by linarith⟩
  · unfold Ends.put
    dsimp only
    split
    case isTrue hn =>
      rw [h.second, ← hn, Complex.ofReal_neg]
      ring
    case isFalse =>
      split
      case isTrue hn => rw [h.first, ← hn]
      case isFalse => simp

/-- Swinging the arm of a triple, where that is accepted, moves it by less than two tolerances. -/
theorem Swings.carries {apex ray arm : NodeId} {corner : Corner ℝ}
    (h : Swings cfg ⟨node apex, node ray, node arm⟩ true corner) (hapex : (node apex).Heavy)
    (harm : (node arm).Heavy) : Carries (2 * cfg.tolerance) node (corner.put apex ray arm node) := by
  generalize hmet : true = met at h
  cases h with
  | swung share d shared =>
    obtain ⟨hx, hy⟩ : |d.x| < cfg.tolerance ∧ |d.y| < cfg.tolerance := by simpa using hmet.symm
    obtain ⟨hshare, hshare'⟩ := Corner.fair hapex harm shared
    have hnorm : ‖d.toComplex‖ < 2 * cfg.tolerance := by
      have := Complex.norm_le_abs_re_add_abs_im d.toComplex
      change _ ≤ |d.x| + |d.y| at this
      linarith
    refine ⟨d.toComplex, fun n => if arm = n then -share else 0, -share, hnorm, fun n => ?_, fun n => ?_⟩
    · dsimp only
      split
      · exact ⟨le_refl _, by linarith⟩
      · exact ⟨by linarith, by linarith⟩
    · unfold Corner.put
      dsimp only
      split
      case isTrue hn =>
        rw [Node.place_addBoost, ← hn]
        apply Complex.ext <;> simp [Node.place, Node.moveTo, Vec.toComplex, sub_eq_add_neg]
      case isFalse =>
        split
        case isTrue hn => simp [← hn]
        case isFalse =>
          split
          case isTrue hn => simp [← hn]
          case isFalse => simp

end Carries

/-! ### Corrections -/

/-- The bounds of the configuration are positive, and the nodes of the constraint are heavy. -/
structure Sturdy (cfg : Config ℝ) (k : Constraint ℝ) (node : NodeId → Node ℝ) : Prop where
  tolerance : 0 < cfg.tolerance
  reach : 0 < cfg.reach
  heavy : ∀ n ∈ k.shape.nodes, (node n).Heavy

section Corrects

variable {k : Constraint ℝ} {node node' : NodeId → Node ℝ}

theorem Sturdy.worked (h : Sturdy cfg k node) (hworked : ∀ n, (node n).Worked (node' n)) : Sturdy cfg k node' :=
  ⟨h.tolerance, h.reach, fun n hn => (hworked n).heavy (h.heavy n hn)⟩

/-- A pair whose wanted angle is met carries all nodes by less than three tolerances. -/
theorem Meets.carries {first second : NodeId} {direction : Direction} {target? : Option (Target ℝ)}
    (h : Meets (anglePass cfg direction) first second node target? true node') (hfirst : (node first).Heavy)
    (hsecond : (node second).Heavy) (htolerance : 0 < cfg.tolerance) (hreach : 0 < cfg.reach) :
    Carries (3 * cfg.tolerance) node node' := by
  generalize hmet : true = met at h
  cases h with
  | free => exact carries_refl (by linarith) node
  | passed t w met e value ran =>
    subst hmet
    obtain ⟨share, d, hshare, hd, hdrifts, -⟩ := (turns_of_anglePass ran).drift hfirst hsecond htolerance hreach
    exact hdrifts.carries hshare hd

/-- A pair whose fixed angle is met is within two tolerances of the line. -/
theorem Meets.offset_lt {first second : NodeId} {direction : Direction} {w : ℝ}
    (h : Meets (anglePass cfg direction) first second node (some (.fixed w)) true node') (hfirst : (node first).Heavy)
    (hsecond : (node second).Heavy) (htolerance : 0 < cfg.tolerance) (hreach : 0 < cfg.reach) :
    |offset ((node' first).vectorTo (node' second)).toComplex w| < 2 * cfg.tolerance := by
  generalize hmet : true = met at h
  cases h with
  | passed t w' met e value ran =>
    subst hmet
    obtain rfl := value w rfl
    obtain ⟨share, d, -, -, -, hoffset⟩ := (turns_of_anglePass ran).drift hfirst hsecond htolerance hreach
    by_cases hsame : second = first
    · rw [hsame, Node.toComplex_vectorTo, sub_self]
      simpa [offset] using htolerance
    · have hput : e.put first second node first = e.first := by simp [Ends.put, hsame]
      have hput' : e.put first second node second = e.second := by simp [Ends.put]
      rw [hput, hput']
      exact hoffset

/-- A correction that is accepted carries all nodes by less than three tolerances. -/
theorem Corrects.carries (h : Corrects cfg k node true node') (hsturdy : Sturdy cfg k node) :
    Carries (3 * cfg.tolerance) node node' := by
  obtain ⟨htolerance, hreach, hheavy⟩ := hsturdy
  -- a pair that is accepted had its angle met and its length untouched; a triple swings its arm or does nothing
  cases hshape : k.shape with
  | pair first second direction =>
    rw [hshape] at hheavy
    exact (h.pair_met hshape).1.carries (hheavy first (by simp [Shape.nodes])) (hheavy second (by simp [Shape.nodes]))
      htolerance hreach
  | triple apex ray arm =>
    rw [hshape] at hheavy
    generalize hmet : true = met at h
    cases h with
    | pair shape => cases hshape.symm.trans shape
    | idle => exact carries_refl (by linarith) node
    | triple shape angle swings =>
      cases hshape.symm.trans shape
      subst hmet
      obtain ⟨d, part, least, hd, hpart, hplace⟩ := swings.carries (hheavy apex (by simp [Shape.nodes]))
        (hheavy arm (by simp [Shape.nodes]))
      exact ⟨d, part, least, by linarith, hpart, hplace⟩

/-- A pair whose fixed angle is met by a correction is within two tolerances of the line. -/
theorem Corrects.offset_lt (h : Corrects cfg k node true node') (hsturdy : Sturdy cfg k node) {first second : NodeId}
    {direction : Direction} (hshape : k.shape = .pair first second direction) {w : ℝ}
    (htarget : k.angleTarget = some (.fixed w)) :
    |offset ((node' first).vectorTo (node' second)).toComplex w| < 2 * cfg.tolerance := by
  obtain ⟨htolerance, hreach, hheavy⟩ := hsturdy
  rw [hshape] at hheavy
  have hangle := (h.pair_met hshape).1
  rw [htarget] at hangle
  exact hangle.offset_lt (hheavy first (by simp [Shape.nodes])) (hheavy second (by simp [Shape.nodes])) htolerance hreach

/-- Whether a constraint has a wanted angle and a node in common with two. -/
def Constraint.Tugs (k : Constraint ℝ) (p q : NodeId) : Bool :=
  k.angleTarget.isSome && (p ∈ k.shape.nodes || q ∈ k.shape.nodes)

/-- The vector between two nodes changes by three tolerances at most in a correction that is accepted, and only if that
is for a wanted angle and moves one of the two. -/
theorem Corrects.vectorTo_sub (h : Corrects cfg k node true node') (hsturdy : Sturdy cfg k node) (p q : NodeId) :
    ‖((node' p).vectorTo (node' q)).toComplex - ((node p).vectorTo (node q)).toComplex‖ ≤
      if k.Tugs p q then 3 * cfg.tolerance else 0 := by
  split
  case isTrue => exact ((h.carries hsturdy).vectorTo_sub p q).le
  case isFalse htugs =>
    suffices hsame : node' p = node p ∧ node' q = node q by
      rw [hsame.1, hsame.2, sub_self, norm_zero]
    cases htarget : k.angleTarget with
    | none =>
      rw [h.node_eq htarget]
      exact ⟨rfl, rfl⟩
    | some t =>
      obtain ⟨hp, hq⟩ : p ∉ k.shape.nodes ∧ q ∉ k.shape.nodes := by simpa [Constraint.Tugs, htarget] using htugs
      exact ⟨h.outside hp, h.outside hq⟩

end Corrects

/-- Over a sweep that meets every constraint, the vector between two nodes changes by three tolerances at most for every
constraint that tugs at it. -/
theorem Sweeps.vectorTo_sub {cfg : Config ℝ} {cfgs : ConstraintId → Config ℝ} {constraint : ConstraintId → Constraint ℝ}
    {node node' : NodeId → Node ℝ} {constraints : List ConstraintId} {answers : List Bool}
    (h : Sweeps cfgs constraint node constraints answers node') (hmet : ∀ met ∈ answers, met = true)
    (hcfg : ∀ c ∈ constraints, cfgs c = cfg) (hsturdy : ∀ c ∈ constraints, Sturdy cfg (constraint c) node)
    (p q : NodeId) :
    ‖((node' p).vectorTo (node' q)).toComplex - ((node p).vectorTo (node q)).toComplex‖ ≤
      3 * cfg.tolerance * constraints.countP fun c => (constraint c).Tugs p q := by
  -- by induction on the sweep: each correction adds its own bound, if it tugs at one of the two nodes
  induction h with
  | nil => simp
  | @cons node mid node' c rest met answers first later ih =>
    obtain ⟨rfl, hlater⟩ := List.forall_mem_cons.mp hmet
    obtain ⟨hc, hrest⟩ := List.forall_mem_cons.mp hcfg
    obtain ⟨hsturdyc, hsturdyrest⟩ := List.forall_mem_cons.mp hsturdy
    rw [hc] at first
    have hstep := first.vectorTo_sub hsturdyc p q
    have hlater := ih hlater hrest fun d hd => (hsturdyrest d hd).worked first.worked
    have hcount : ((c :: rest).countP fun c => (constraint c).Tugs p q : ℝ) =
        (rest.countP fun c => (constraint c).Tugs p q) + if (constraint c).Tugs p q then 1 else 0 := by
      rw [List.countP_cons]
      push_cast
      rfl
    have hown : (3 * cfg.tolerance * if (constraint c).Tugs p q then 1 else 0 : ℝ) =
        if (constraint c).Tugs p q then 3 * cfg.tolerance else 0 := by
      rw [mul_ite, mul_one, mul_zero]
    have htriangle := norm_sub_le_norm_sub_add_norm_sub ((node' p).vectorTo (node' q)).toComplex
      ((mid p).vectorTo (mid q)).toComplex ((node p).vectorTo (node q)).toComplex
    rw [hcount, mul_add]
    linarith

end Linkage
