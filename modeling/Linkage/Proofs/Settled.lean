import Linkage.Proofs.Bars

/-!
# Linkage.Proofs.Settled — layouts that have what they want

A constraint is at rest if correcting it is met and moves nothing, as long as its nodes stay in their places.  So a system
of constraints at rest is met by its first sweep, with every node in its place (`runs_correct_resting`).  A pair whose
targets are fixed is settled if it has exactly the length and the angle that it wants; it is at rest (`Settled.rests`).
-/

namespace Linkage

/-! ### Passes -/

/-- Turning ends within reach from whose vector there is nothing to take counts and does nothing else. -/
theorem anglePass_of_uncorrected {cfg : Config ℝ} {direction : Direction} {w : ℝ} {e : Ends ℝ}
    {share : ℝ × ℝ} (hshare : e.shares = .ok share)
    (hnothing : direction.correction e.vector ⟨Real.cos w, Real.sin w⟩ = ⟨0, 0⟩)
    (hreach : ‖e.vector.toComplex‖ ≤ cfg.reach) (htolerance : 0 < cfg.tolerance) :
    anglePass cfg direction w e = .ok true e.addBoost := by
  have hnear : ¬cfg.reach < (e.shift share ⟨0, 0⟩).vector.length := by
    rw [Ends.shift_zero, Vec.length_eq_norm]
    exact not_lt.mpr hreach
  refine (anglePass_of_near (Scalar.heading_real w) hshare hnothing hnear).trans ?_
  rw [Ends.shift_zero, Scalar.abs_real, abs_zero, decide_eq_true htolerance]
  rfl

/-- There is nothing to take from a vector on the target line, on a side that is not forbidden. -/
theorem correction_eq_zero {direction : Direction} {v : Vec ℝ} {w : ℝ}
    (hside : direction = .either ∨ 0 < direction.sign * advance v.toComplex w) (hline : offset v.toComplex w = 0) :
    direction.correction v ⟨Real.cos w, Real.sin w⟩ = ⟨0, 0⟩ := by
  have hacross : -v.x * Real.sin w + v.y * Real.cos w = 0 := hline
  refine (if_pos hside).trans ?_
  rw [hacross, neg_zero, zero_mul, zero_mul]

/-- Turning ends that are on the target line, on a side that is not forbidden, counts and does nothing else. -/
theorem anglePass_of_settled {cfg : Config ℝ} {direction : Direction} {w : ℝ} {e : Ends ℝ} (hfirst : e.first.Heavy)
    (hsecond : e.second.Heavy) (hside : direction = .either ∨ 0 < direction.sign * advance e.vector.toComplex w)
    (hline : offset e.vector.toComplex w = 0) (hreach : ‖e.vector.toComplex‖ ≤ cfg.reach) (htolerance : 0 < cfg.tolerance) :
    anglePass cfg direction w e = .ok true e.addBoost := by
  obtain ⟨share, hshare⟩ : ∃ share, e.shares = .ok share := Ends.exists_shares hfirst hsecond
  exact anglePass_of_uncorrected hshare (correction_eq_zero hside hline) hreach htolerance

/-- Putting two nodes where they have their places already moves nothing. -/
theorem Ends.place_put {e : Ends ℝ} {first second : NodeId} {node : NodeId → Node ℝ}
    (hfirst : e.first.place = (node first).place) (hsecond : e.second.place = (node second).place) (n : NodeId) :
    (e.put first second node n).place = (node n).place := by
  unfold put
  split
  case isTrue hn => rw [← hn, hsecond]
  case isFalse =>
    split
    case isTrue hn => rw [← hn, hfirst]
    case isFalse => rfl

/-! ### Quantities of nodes that stay in their places -/

theorem Node.vectorTo_of_place {v w v' w' : Node ℝ} (hv : v'.place = v.place) (hw : w'.place = w.place) :
    v'.vectorTo w' = v.vectorTo w := by
  have hx : w'.x - v'.x = w.x - v.x := congrArg₂ (· - ·) (congrArg Complex.re hw) (congrArg Complex.re hv)
  have hy : w'.y - v'.y = w.y - v.y := congrArg₂ (· - ·) (congrArg Complex.im hw) (congrArg Complex.im hv)
  rw [vectorTo, vectorTo, hx, hy]

namespace Shape

variable {s : Shape} {node node' : NodeId → Node ℝ}

theorem length_of_place (hplace : ∀ n ∈ s.nodes, (node' n).place = (node n).place) : s.length node' = s.length node := by
  cases s with
  | pair first second direction =>
    exact congrArg (Except.ok <| Vec.length ·)
      (Node.vectorTo_of_place (hplace first (by simp [nodes])) (hplace second (by simp [nodes])))
  | triple => rfl

theorem angle_of_place (hplace : ∀ n ∈ s.nodes, (node' n).place = (node n).place) : s.angle node' = s.angle node := by
  cases s with
  | pair first second direction =>
    exact congrArg Vec.angle
      (Node.vectorTo_of_place (hplace first (by simp [nodes])) (hplace second (by simp [nodes])))
  | triple apex ray arm =>
    exact congrArg₂ Vec.included
      (Node.vectorTo_of_place (hplace apex (by simp [nodes])) (hplace ray (by simp [nodes])))
      (Node.vectorTo_of_place (hplace apex (by simp [nodes])) (hplace arm (by simp [nodes])))

end Shape

/-! ### Layouts at rest -/

namespace Assembly

variable {a b c : Assembly ℝ} {i : ConstraintId} {first second : NodeId} {direction : Direction}

/-- A pair that has what it wants, exactly. -/
structure SettledPair (a : Assembly ℝ) (i : ConstraintId) (first second : NodeId) (direction : Direction) : Prop where
  shape : (a.constraint i).shape = .pair first second direction
  distinct : first ≠ second
  heavy : (a.node first).Heavy ∧ (a.node second).Heavy
  tolerance : 0 < (a.configOf i).tolerance
  angle : ∀ t, (a.constraint i).angleTarget = some t → ∃ w, t = .fixed w ∧
    offset ((a.node second).place - (a.node first).place) w = 0 ∧
    (direction = .either ∨ 0 < direction.sign * advance ((a.node second).place - (a.node first).place) w) ∧
    ‖(a.node second).place - (a.node first).place‖ ≤ (a.configOf i).reach
  length : ∀ t, (a.constraint i).lengthTarget = some t → t = .fixed ‖(a.node second).place - (a.node first).place‖

/-- A constraint that is a settled pair. -/
def Settled (a : Assembly ℝ) (i : ConstraintId) : Prop :=
  ∃ first second direction, a.SettledPair i first second direction

/-- Nothing was moved, and nothing was changed but what counts corrections and what is remembered. -/
structure Still (a b : Assembly ℝ) : Prop extends SameDesign a b where
  place : ∀ n, (b.node n).place = (a.node n).place
  worked : ∀ n, (a.node n).Worked (b.node n)

theorem place_clearBoosts (a : Assembly ℝ) (nodes : List NodeId) (n : NodeId) :
    ((a.clearBoosts nodes).node n).place = (a.node n).place := by
  rw [node_clearBoosts]
  split
  · exact (a.node n).place_clearBoost
  · rfl

theorem still_clearBoosts (a : Assembly ℝ) (nodes : List NodeId) : Still a (a.clearBoosts nodes) where
  toSameDesign := (corrected_clearBoosts (List.Subset.refl nodes) a).toSameDesign
  place := place_clearBoosts a nodes
  worked := worked_clearBoosts a nodes

theorem Still.refl (a : Assembly ℝ) : Still a a where
  toSameDesign := .refl a
  place _ := rfl
  worked _ := .start

theorem Still.trans (h : Still a b) (h' : Still b c) : Still a c where
  toSameDesign := h.toSameDesign.trans h'.toSameDesign
  place n := (h'.place n).trans (h.place n)
  worked n := (h.worked n).trans (h'.worked n)

theorem Still.angle (h : Still a b) (i : ConstraintId) : b.angle i = a.angle i := by
  unfold Assembly.angle
  rw [h.constraint]
  exact Shape.angle_of_place fun n _ => h.place n

theorem Settled.still (hs : a.Settled i) (h : Still a b) : b.Settled i := by
  obtain ⟨first, second, direction, hs⟩ := hs
  have hconfig : b.configOf i = a.configOf i := h.samePlan.configOf i
  refine ⟨first, second, direction, ?_, hs.distinct, ?_, ?_, ?_, ?_⟩
  · rw [h.constraint, hs.shape]
  · exact ⟨(h.worked first).heavy hs.heavy.1, (h.worked second).heavy hs.heavy.2⟩
  · rw [hconfig]
    exact hs.tolerance
  · rw [h.constraint, h.place, h.place, hconfig]
    exact hs.angle
  · rw [h.constraint, h.place, h.place]
    exact hs.length

/-- A constraint that is met in its place: as long as its nodes stay where they are, correcting it moves nothing. -/
def Rests (a : Assembly ℝ) (i : ConstraintId) : Prop :=
  ∀ made b, Coherent made b → Still a b → Act.Runs (Act.correctOne i) b fun r c => r = .ok true ∧ Still b c

theorem Rests.still (hr : a.Rests i) (h : Still a b) : b.Rests i :=
  fun made _ hcoherent h' => hr made _ hcoherent (h.trans h')

end Assembly

open Assembly (Coherent Corrected Still)

/-! ### Corrections that move nothing -/

namespace Act

variable {a : Assembly ℝ} {i : ConstraintId} {s : SystemId} {made : List Reference}

/-- A pair that has the length it wants is met and not moved if turning it is met and does not move it. -/
theorem runs_correctOne_met {first second : NodeId} {direction : Direction} {angle? : Option ℝ} {e : Ends ℝ}
    (h : Coherent made a) (hshape : (a.constraint i).shape = .pair first second direction) (hne : first ≠ second)
    (hwanted : a.wanted i (a.constraint i).angleTarget = .ok angle?)
    (hturn : Pass.toward (anglePass (a.configOf i) direction) angle? ⟨a.node first, a.node second⟩ = .ok true e)
    (hfirst : e.first.place = (a.node first).place) (hsecond : e.second.place = (a.node second).place)
    (hlength : ∀ t, (a.constraint i).lengthTarget = some t →
      t = .fixed ‖(a.node second).place - (a.node first).place‖)
    (htolerance : 0 < (a.configOf i).tolerance) : Runs (correctOne i) a fun r b => r = .ok true ∧ Still a b := by
  -- the length is measured after turning, which has left the ends in their places
  obtain ⟨length?, hfixed, hstretch⟩ : ∃ length?, (a.constraint i).lengthTarget = length?.map .fixed ∧
      Pass.toward (lengthPass (a.configOf i)) length? e = .ok true e := by
    cases htarget : (a.constraint i).lengthTarget with
    | none => exact ⟨none, rfl, rfl⟩
    | some t =>
      obtain rfl := hlength t htarget
      refine ⟨some _, rfl, lengthPass_of_near ?_⟩
      have hvector : e.vector.toComplex = (a.node second).place - (a.node first).place := by
        unfold Ends.vector
        rw [Node.toComplex_vectorTo, hfirst, hsecond]
      rw [Vec.length_eq_norm, hvector, sub_self, Scalar.abs_real, abs_zero]
      exact htolerance
  refine ((runs_correctOne_pair h hshape hne hwanted hfixed hturn hstretch).and
    (keeps_correctOne (List.mem_singleton_self i) a)).mono ?_
  rintro _ b ⟨⟨rfl, hnode⟩, htended⟩
  refine ⟨rfl, htended.toSameDesign, fun n => ?_, fun n => (htended.handled n).worked⟩
  rw [hnode]
  exact Ends.place_put hfirst hsecond n

theorem runs_correctOne_settled (h : Coherent made a) (hs : a.Settled i) : Runs (correctOne i) a fun r b =>
    r = .ok true ∧ Still a b := by
  obtain ⟨first, second, direction, hs⟩ := hs
  obtain ⟨angle?, e, hwanted, hturn, hfirst, hsecond⟩ : ∃ angle? e,
      a.wanted i (a.constraint i).angleTarget = .ok angle? ∧
      Pass.toward (anglePass (a.configOf i) direction) angle? ⟨a.node first, a.node second⟩ = .ok true e ∧
      e.first.place = (a.node first).place ∧ e.second.place = (a.node second).place := by
    cases hangle : (a.constraint i).angleTarget with
    | none => exact ⟨none, _, rfl, rfl, rfl, rfl⟩
    | some t =>
      obtain ⟨w, rfl, hline, hside, hreach⟩ := hs.angle t hangle
      exact ⟨some w, _, rfl, anglePass_of_settled hs.heavy.1 hs.heavy.2 hside hline hreach hs.tolerance,
        Node.place_addBoost _, Node.place_addBoost _⟩
  exact runs_correctOne_met h hs.shape hs.distinct hwanted hturn hfirst hsecond hs.length hs.tolerance

end Act

namespace Assembly

variable {a : Assembly ℝ} {i : ConstraintId} {first second : NodeId}

theorem Settled.rests (hs : a.Settled i) : a.Rests i :=
  fun _ _ hcoherent h => Act.runs_correctOne_settled hcoherent (hs.still h)

/-- A pair whose target reads as the angle that it has, and that has the length it wants, is at rest. -/
theorem rests_of_own (hshape : (a.constraint i).shape = .pair first second .either) (hne : first ≠ second)
    (hheavy : (a.node first).Heavy ∧ (a.node second).Heavy) (htolerance : 0 < (a.configOf i).tolerance)
    (hreach : ‖(a.node second).place - (a.node first).place‖ ≤ (a.configOf i).reach)
    (hlength : ∀ t, (a.constraint i).lengthTarget = some t →
      t = .fixed ‖(a.node second).place - (a.node first).place‖)
    (hwanted : ∀ b, Still a b → b.wanted i (b.constraint i).angleTarget = .ok (some (b.angle i))) : a.Rests i := by
  intro made b hcoherent h
  have hconfig : b.configOf i = a.configOf i := h.samePlan.configOf i
  have hown : b.angle i = Complex.arg ((b.node second).place - (b.node first).place) := by
    unfold Assembly.angle
    rw [h.constraint, hshape]
    rfl
  have hline : offset ((b.node second).place - (b.node first).place) (b.angle i) = 0 := by
    rw [hown, offset_own]
  rw [← h.place first, ← h.place second, ← hconfig] at hreach
  rw [← h.place first, ← h.place second, ← h.constraint i] at hlength
  rw [← h.constraint i] at hshape
  rw [← hconfig] at htolerance
  have hturn := anglePass_of_settled (e := ⟨b.node first, b.node second⟩) ((h.worked first).heavy hheavy.1)
    ((h.worked second).heavy hheavy.2) (Or.inl rfl) hline hreach htolerance
  exact Act.runs_correctOne_met hcoherent hshape hne (hwanted b h) hturn (Node.place_addBoost _) (Node.place_addBoost _)
    hlength htolerance

end Assembly

/-! ### Systems at rest -/

namespace Act

variable {a : Assembly ℝ} {s : SystemId} {made : List Reference}

/-- Constraints at rest are met one after the other. -/
theorem runs_answersOf_resting {cs : List ConstraintId} (h : Coherent made a) (hr : ∀ c ∈ cs, a.Rests c) :
    Runs (answersOf cs) a fun r b => (∃ answers, r = .ok answers ∧ ∀ met ∈ answers, met = true) ∧ Still a b := by
  induction cs generalizing a with
  | nil => exact runs_pure ⟨⟨[], rfl, fun _ hmet => absurd hmet List.not_mem_nil⟩, .refl a⟩
  | cons c rest ih =>
    obtain ⟨hc, hrest⟩ := List.forall_mem_cons.mp hr
    refine runs_bind (((hc made a h (.refl a)).and (runs_correctOne (List.Subset.refl _))).mono ?_)
    rintro _ b ⟨⟨rfl, hstill⟩, hcorrected⟩
    rw [then_ok]
    refine runs_bind_pure ((ih (h.relaxed hcorrected.relaxed) fun d hd => (hrest d hd).still hstill).mono ?_)
    rintro _ b' ⟨⟨answers, rfl, hmet⟩, hstill'⟩
    exact ⟨⟨_, rfl, List.forall_mem_cons.mpr ⟨rfl, hmet⟩⟩, hstill.trans hstill'⟩

/-- A system of constraints at rest is met by its first sweep, and every node stays in its place. -/
theorem runs_correct_resting (h : Coherent made a) (hcap : 1 ≤ (a.config (a.system s).config).cap)
    (hr : ∀ c ∈ (a.system s).constraints, a.Rests c) : Runs (correct s) a fun r b =>
      r = .ok 1 ∧ ∀ n, (b.node n).place = (a.node n).place := by
  have hcleared : Corrected (a.nodesOf (a.system s).constraints) a
      (a.clearBoosts (a.nodesOf (a.system s).constraints)) := Assembly.corrected_clearBoosts (List.Subset.refl _) a
  have hclear : Still a (a.clearBoosts (a.nodesOf (a.system s).constraints)) := Assembly.still_clearBoosts a _
  -- one sweep meets every constraint and moves nothing, so that the run ends with it
  have hsweep : Runs (bareSweep (a.system s).constraints) a fun r b =>
      (∃ answers, r = .ok answers ∧ ∀ met ∈ answers, met = true) ∧ Still a b := by
    refine runs_after_change ((runs_answersOf_resting (h.relaxed hcleared.relaxed)
      fun c hc => (hr c hc).still hclear).mono ?_)
    rintro _ b ⟨hanswers, hstill⟩
    exact ⟨hanswers, hclear.trans hstill⟩
  intro j
  obtain ⟨⟨answers, hanswers, hmet⟩, hstill⟩ := hsweep j
  have hconverges : Converges s (a.system s).constraints 1 ⟨a, j⟩ :=
    converges_succ.mpr ⟨answers, hanswers, Assembly.isFinite_real _ s, by simpa using hmet⟩
  have hcorrect := ((runs_correct ⟨a, j⟩ s).at_session 1 (Nat.le_refl 1)).1.mpr ⟨hcap, hconverges⟩
  refine ⟨hcorrect, fun n => ?_⟩
  rw [node_correct (Nat.le_refl 1) hcorrect]
  exact hstill.place n

end Act

end Linkage
