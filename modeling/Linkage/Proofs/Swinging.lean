import Linkage.Proofs.Bars

/-!
# Linkage.Proofs.Swinging — the arm of a triple comes nearer to its ray

A triple moves its arm and nothing else, across the ray on which it is wanted and by the part of the way that the masses
of its apex and its arm allow (`rayPass_eq`).  How far out the arm is along the ray stays as it is, and how far off the ray
it is gets less by the same factor in every sweep (`runs_bareSweep_hinged`), because a sweep begins with the boosts
cleared.  So the corrections of a triple alone in its system are a geometric sequence, and a run counts the sweeps up to
the first one whose correction is below the tolerance (`correct_contracts`).
-/

namespace Linkage

/-- The unit vector a quarter turn ahead of the one with the angle `w`. -/
noncomputable def crossing (w : ℝ) : ℂ := ⟨-Real.sin w, Real.cos w⟩

theorem advance_crossing (w : ℝ) : advance (crossing w) w = 0 := by
  unfold advance crossing
  ring

theorem offset_crossing (w : ℝ) : offset (crossing w) w = 1 := by
  unfold offset crossing
  linear_combination Real.sin_sq_add_cos_sq w

/-! ### The wanted ray -/

namespace Corner

/-- The angle against the x-axis of the ray that has the angle `w` against the first one. -/
noncomputable def rayAngle (k : Corner ℝ) (w : ℝ) : ℝ := k.rayVector.angle + w

/-- How far the arm is off the ray on which it is wanted. -/
noncomputable def miss (k : Corner ℝ) (w : ℝ) : ℝ := offset k.armVector.toComplex (k.rayAngle w)

/-- The part of a correction that the arm takes, in proportion to how easily it moves. -/
noncomputable def armPart (k : Corner ℝ) : ℝ := k.arm.mobility / (k.apex.mobility + k.arm.mobility)

/-- What is to be taken from the arm so that it lies on its ray. -/
noncomputable def correction (k : Corner ℝ) (w : ℝ) : Vec ℝ :=
  ⟨-k.miss w * Real.sin (k.rayAngle w), k.miss w * Real.cos (k.rayAngle w)⟩

variable {k : Corner ℝ} {w : ℝ}

theorem not_isFlat (hlong : Scalar.rootEpsilon < k.rayVector.length) : ¬k.isFlat := fun hflat =>
  not_lt.mpr (of_decide_eq_true hflat) hlong

/-- The parts of an arm that can be moved. -/
theorem armShare_eq (hapex : k.apex.base = false → 0 < k.apex.effectiveMass) (hfree : k.arm.base = false)
    (harm : 0 < k.arm.effectiveMass) : k.armShare = .ok k.armPart ∧ 0 < k.armPart ∧ k.armPart ≤ 1 := by
  have hapexMobility : 0 ≤ k.apex.mobility := Node.mobility_nonneg hapex
  have harmMobility : 0 < k.arm.mobility := Node.mobility_pos (fun _ => harm) hfree
  have hsum : 0 < k.apex.mobility + k.arm.mobility := add_pos_of_nonneg_of_pos hapexMobility harmMobility
  have hzero : ¬Scalar.isZero (k.apex.mobility + k.arm.mobility) := by
    rw [Scalar.isZero_real]
    exact hsum.ne'
  refine ⟨?_, div_pos harmMobility hsum, div_le_one_of_le₀ (le_add_of_nonneg_left hapexMobility) hsum.le⟩
  unfold armShare
  rw [Node.inverseMass_eq hapex, Node.inverseMass_eq fun _ => harm]
  refine (if_neg hzero).trans ?_
  exact Scalar.divide_eq_ok.mpr ⟨hsum.ne', rfl⟩

/-- Whether the correction is below the tolerance in both coordinates. -/
noncomputable def met (k : Corner ℝ) (w tolerance : ℝ) : Bool :=
  Scalar.abs (k.correction w).x < tolerance && Scalar.abs (k.correction w).y < tolerance

theorem met_iff {tolerance : ℝ} : k.met w tolerance = true ↔ |k.miss w * Real.sin (k.rayAngle w)| < tolerance ∧
    |k.miss w * Real.cos (k.rayAngle w)| < tolerance := by
  unfold met correction
  rw [Bool.and_eq_true, decide_eq_true_iff, decide_eq_true_iff, Scalar.abs_real, Scalar.abs_real, neg_mul, abs_neg]

theorem toComplex_correction (k : Corner ℝ) (w : ℝ) :
    (k.correction w).toComplex = k.miss w * crossing (k.rayAngle w) := by
  apply Complex.ext
  · rw [Complex.re_ofReal_mul]
    exact neg_mul_comm _ _
  · rw [Complex.im_ofReal_mul]
    rfl

end Corner

/-! ### The pass -/

/-- A first ray that is long enough has a direction, and turned by `w` it has the angle of the wanted ray. -/
theorem Corner.heading_eq {k : Corner ℝ} (hpos : 0 < k.rayVector.length) (w : ℝ) :
    k.rayVector.x / k.rayVector.length * Real.cos w - k.rayVector.y / k.rayVector.length * Real.sin w =
        Real.cos (k.rayAngle w) ∧
      k.rayVector.y / k.rayVector.length * Real.cos w + k.rayVector.x / k.rayVector.length * Real.sin w =
        Real.sin (k.rayAngle w) := by
  have hangle : k.rayVector.angle = Complex.arg k.rayVector.toComplex := rfl
  have hne : k.rayVector.toComplex ≠ 0 := by
    rw [← norm_pos_iff, ← Vec.length_eq_norm]
    exact hpos
  have hcos : k.rayVector.x / k.rayVector.length = Real.cos k.rayVector.angle := by
    rw [hangle, Complex.cos_arg hne, Vec.length_eq_norm]
    rfl
  have hsin : k.rayVector.y / k.rayVector.length = Real.sin k.rayVector.angle := by
    rw [hangle, Complex.sin_arg, Vec.length_eq_norm]
    rfl
  rw [hcos, hsin, rayAngle, Real.cos_add, Real.sin_add]
  exact ⟨rfl, rfl⟩

/-- Swinging the arm of a triple takes its share of the correction from it. -/
theorem rayPass_eq {cfg : Config ℝ} {k : Corner ℝ} {w share : ℝ} (hlong : Scalar.rootEpsilon < k.rayVector.length)
    (hshare : k.armShare = .ok share) : rayPass cfg w k =
      .ok (k.met w cfg.tolerance) { k with arm := (k.arm.moveTo (k.arm.x - share * (k.correction w).x)
        (k.arm.y - share * (k.correction w).y)).addBoost } := by
  have hpos : 0 < k.rayVector.length := (Scalar.Signs.rootEpsilon_pos (α := ℝ)).trans hlong
  have hdivide (x : ℝ) : Pass.ofExcept (Scalar.divide x k.rayVector.length) k = .ok (x / k.rayVector.length) k := by
    rw [Scalar.divide_eq_ok.mpr ⟨hpos.ne', rfl⟩]
    rfl
  have hget : (get : Pass ℝ (Corner ℝ) (Corner ℝ)) k = .ok k k := rfl
  have hheading : Pass.ofExcept (Scalar.heading w) k = .ok ⟨Real.cos w, Real.sin w⟩ k := rfl
  have hpart : Pass.ofExcept k.armShare k = .ok share k := by
    rw [hshare]
    rfl
  obtain ⟨hcos, hsin⟩ := k.heading_eq hpos w
  -- the steps of the pass in their order: both parts of the unit vector, the heading, and the share
  refine (Pass.then_ok hget).trans ((Pass.then_ok (hdivide _)).trans ((Pass.then_ok (hdivide _)).trans ?_))
  refine (Pass.then_ok hheading).trans ?_
  dsimp only
  rw [hcos, hsin]
  exact Pass.then_ok hpart

/-- The arm gives up a part of what it misses its ray by, and nothing else of the triple is moved. -/
structure Corner.Swung (w part : ℝ) (k k' : Corner ℝ) : Prop where
  apex : k'.apex = k.apex
  ray : k'.ray = k.ray
  arm : k.arm.Shifted k'.arm (-(part * (k.correction w).toComplex))

namespace Corner

variable {k k' : Corner ℝ} {w part : ℝ}

theorem Swung.rayAngle (h : k.Swung w part k') : k'.rayAngle w = k.rayAngle w := by
  unfold Corner.rayAngle rayVector
  rw [h.apex, h.ray]

theorem Swung.armVector (h : k.Swung w part k') :
    k'.armVector.toComplex = k.armVector.toComplex - (part * k.miss w : ℝ) * crossing (k.rayAngle w) := by
  unfold Corner.armVector
  rw [Node.toComplex_vectorTo, Node.toComplex_vectorTo, h.apex, h.arm.place, toComplex_correction, Complex.ofReal_mul]
  ring

theorem Swung.advance (h : k.Swung w part k') :
    Linkage.advance k'.armVector.toComplex (k.rayAngle w) = Linkage.advance k.armVector.toComplex (k.rayAngle w) := by
  rw [h.armVector, advance_sub, advance_mul, advance_crossing, mul_zero, sub_zero]

theorem Swung.miss (h : k.Swung w part k') : k'.miss w = (1 - part) * k.miss w := by
  have hoffset : k'.miss w = offset k'.armVector.toComplex (k.rayAngle w) := by rw [Corner.miss, h.rayAngle]
  rw [hoffset, h.armVector, offset_sub, offset_mul, offset_crossing, mul_one, one_sub_mul]
  rfl

end Corner

/-- The arm gives up its part, if it can be moved. -/
theorem rayPass_swings (cfg : Config ℝ) {k : Corner ℝ} (w : ℝ) (hlong : Scalar.rootEpsilon < k.rayVector.length)
    (hapex : k.apex.base = false → 0 < k.apex.effectiveMass) (hfree : k.arm.base = false)
    (harm : 0 < k.arm.effectiveMass) :
    ∃ k', rayPass cfg w k = .ok (k.met w cfg.tolerance) k' ∧ k.Swung w k.armPart k' := by
  refine ⟨_, rayPass_eq hlong (Corner.armShare_eq hapex hfree harm).1, rfl, rfl, Node.shifted_moveTo ?_ fun hbase => ?_⟩
  · apply Complex.ext
    · rw [Complex.add_re, Complex.neg_re, Complex.re_ofReal_mul, ← sub_eq_add_neg]
      rfl
    · rw [Complex.add_im, Complex.neg_im, Complex.im_ofReal_mul, ← sub_eq_add_neg]
      rfl
  · exact absurd (hbase.symm.trans hfree) (by decide)

/-! ### Corrections -/

section Put

variable {α : Type} {k : Corner α} {apex ray arm n : NodeId} {node : NodeId → Node α}

@[simp] theorem Corner.put_arm : k.put apex ray arm node arm = k.arm := if_pos rfl

theorem Corner.put_other (hapex : k.apex = node apex) (hray : k.ray = node ray) (hn : n ≠ arm) :
    k.put apex ray arm node n = node n := by
  unfold put
  rw [if_neg hn.symm]
  split
  case isTrue h => rw [← h, hray]
  case isFalse =>
    split
    case isTrue h => rw [← h, hapex]
    case isFalse => rfl

end Put

namespace Act

/-- A triple with a fixed angle, the first ray of which is long enough, is corrected by its pass. -/
theorem runs_correctOne_triple {α : Type} [Scalar α] {a : Assembly α} {c : ConstraintId} {apex ray arm : NodeId}
    {target : α} {met : Bool} {k : Corner α} (hshape : (a.constraint c).shape = .triple apex ray arm)
    (hangle : (a.constraint c).angleTarget = some (.fixed target))
    (hlong : ¬(⟨a.node apex, a.node ray, a.node arm⟩ : Corner α).isFlat)
    (hpass : rayPass (a.configOf c) target ⟨a.node apex, a.node ray, a.node arm⟩ = .ok met k) :
    Runs (correctOne c) a fun r b => r = .ok met ∧ b.node = k.put apex ray arm a.node := by
  refine runs_read ?_
  rw [hshape]
  dsimp only
  rw [hangle]
  dsimp only
  rw [if_neg hlong]
  refine runs_bind (runs_pure ?_)
  rw [then_ok]
  refine runs_onCorner hpass ⟨rfl, funext fun n => ?_⟩
  rw [Assembly.node_setNode, Assembly.node_setNode, Assembly.node_setNode]
  rfl

end Act

/-! ### Sweeps -/

noncomputable def Corner.clearBoost (k : Corner ℝ) : Corner ℝ :=
  ⟨k.apex.clearBoost, k.ray.clearBoost, k.arm.clearBoost⟩

/-- What sweeps do to a triple: its first ray stays, how far the arm is out along its own ray stays, and what it misses that
ray by gets less by the same factor every time. -/
structure Corner.Nears (w : ℝ) (sweeps : ℕ) (k k' : Corner ℝ) : Prop where
  ray : k'.rayVector.toComplex = k.rayVector.toComplex
  part : k'.clearBoost.armPart = k.clearBoost.armPart
  along : advance k'.armVector.toComplex (k.rayAngle w) = advance k.armVector.toComplex (k.rayAngle w)
  miss : k'.miss w = (1 - k.clearBoost.armPart) ^ sweeps * k.miss w

namespace Corner

variable {k k' k'' : Corner ℝ} {w : ℝ}

theorem rayAngle_congr (h : k'.rayVector.toComplex = k.rayVector.toComplex) : k'.rayAngle w = k.rayAngle w := by
  have hangle : k'.rayVector.angle = k.rayVector.angle := congrArg Complex.arg h
  rw [rayAngle, rayAngle, hangle]

theorem Nears.refl (w : ℝ) (k : Corner ℝ) : k.Nears w 0 k :=
  ⟨rfl, rfl, rfl, by rw [pow_zero, one_mul]⟩

theorem Nears.succ {sweeps : ℕ} (h : k.Nears w sweeps k') (h' : k'.Nears w 1 k'') : k.Nears w (sweeps + 1) k'' := by
  refine ⟨h'.ray.trans h.ray, h'.part.trans h.part, ?_, ?_⟩
  · rw [← h.along, ← rayAngle_congr h.ray]
    exact h'.along
  · rw [h'.miss, h.part, h.miss, pow_one, pow_succ']
    ring

theorem toComplex_rayVector_clearBoost (k : Corner ℝ) : k.clearBoost.rayVector.toComplex = k.rayVector.toComplex :=
  congrArg₂ (· - ·) k.ray.place_clearBoost k.apex.place_clearBoost

theorem toComplex_armVector_clearBoost (k : Corner ℝ) : k.clearBoost.armVector.toComplex = k.armVector.toComplex :=
  congrArg₂ (· - ·) k.arm.place_clearBoost k.apex.place_clearBoost

theorem rayAngle_clearBoost (k : Corner ℝ) (w : ℝ) : k.clearBoost.rayAngle w = k.rayAngle w :=
  rayAngle_congr k.toComplex_rayVector_clearBoost

theorem miss_clearBoost (k : Corner ℝ) (w : ℝ) : k.clearBoost.miss w = k.miss w := by
  rw [miss, miss, k.toComplex_armVector_clearBoost, k.rayAngle_clearBoost]

theorem met_clearBoost (k : Corner ℝ) (w tolerance : ℝ) : k.clearBoost.met w tolerance = k.met w tolerance := by
  unfold met correction
  rw [k.miss_clearBoost, k.rayAngle_clearBoost]

/-- A swing that starts with the boosts cleared. -/
theorem Swung.nears (h : k.clearBoost.Swung w k.clearBoost.armPart k') : k.Nears w 1 k' := by
  have hray : k'.rayVector = k.clearBoost.rayVector := by
    unfold Corner.rayVector
    rw [h.apex, h.ray]
  refine ⟨?_, ?_, ?_, ?_⟩
  · rw [hray]
    exact k.toComplex_rayVector_clearBoost
  · have hapex : k'.apex.clearBoost = k.apex.clearBoost := by
      rw [h.apex]
      exact Assembly.clearBoost_clearBoost k.apex
    have harm : k'.arm.clearBoost.mobility = k.arm.clearBoost.mobility :=
      Node.mobility_clearBoost (h.arm.body.1.trans k.arm.base_clearBoost) (h.arm.body.2.1.trans k.arm.mass_clearBoost)
    unfold armPart clearBoost
    dsimp only
    rw [hapex, harm]
  · rw [← k.rayAngle_clearBoost, ← k.toComplex_armVector_clearBoost]
    exact h.advance
  · rw [h.miss, k.miss_clearBoost, pow_one]

end Corner

/-- The first ray of a triple is long enough, and its arm can be moved at the start of a sweep. -/
structure Corner.Movable (k : Corner ℝ) : Prop where
  long : Scalar.rootEpsilon < k.rayVector.length
  apex : k.apex.base = false → 0 < k.apex.mass
  arm : 0 < k.arm.mass
  free : k.arm.base = false

namespace Corner

variable {k k' : Corner ℝ} {w : ℝ}

theorem Movable.long_clearBoost (h : k.Movable) : Scalar.rootEpsilon < k.clearBoost.rayVector.length := by
  rw [Vec.length_eq_norm, k.toComplex_rayVector_clearBoost, ← Vec.length_eq_norm]
  exact h.long

theorem Movable.armPart (h : k.Movable) : 0 < k.clearBoost.armPart ∧ k.clearBoost.armPart ≤ 1 :=
  have hfree : k.clearBoost.arm.base = false := k.arm.base_clearBoost.trans h.free
  (armShare_eq (Node.effectiveMass_clearBoost_pos h.apex) hfree
    (Node.effectiveMass_clearBoost_pos (fun _ => h.arm) hfree)).2

/-- Such a triple is swung, and can be swung again. -/
theorem Movable.rayPass (h : k.Movable) (cfg : Config ℝ) (w : ℝ) :
    ∃ k', rayPass cfg w k.clearBoost = .ok (k.met w cfg.tolerance) k' ∧
      k.clearBoost.Swung w k.clearBoost.armPart k' ∧ k'.Movable := by
  have hfree : k.clearBoost.arm.base = false := k.arm.base_clearBoost.trans h.free
  obtain ⟨k', hpass, hswung⟩ := rayPass_swings cfg w h.long_clearBoost (Node.effectiveMass_clearBoost_pos h.apex) hfree
    (Node.effectiveMass_clearBoost_pos (fun _ => h.arm) hfree)
  rw [k.met_clearBoost] at hpass
  obtain ⟨hbase, hmass, -⟩ := hswung.arm.body
  refine ⟨k', hpass, hswung, ?_, ?_, ?_, hbase.trans hfree⟩
  · unfold rayVector
    rw [hswung.apex, hswung.ray]
    exact h.long_clearBoost
  · rw [hswung.apex]
    exact fun hbase => (h.apex (k.apex.base_clearBoost.symm.trans hbase)).trans_eq k.apex.mass_clearBoost.symm
  · rw [hmass]
    exact h.arm.trans_eq k.arm.mass_clearBoost.symm

end Corner

/-- A triple with a fixed angle that can be swung. -/
structure Assembly.Hinged (a : Assembly ℝ) (c : ConstraintId) (apex ray arm : NodeId) (w : ℝ) : Prop where
  shape : (a.constraint c).shape = .triple apex ray arm
  distinct : apex ≠ arm ∧ ray ≠ arm
  angle : (a.constraint c).angleTarget = some (.fixed w)
  movable : (⟨a.node apex, a.node ray, a.node arm⟩ : Corner ℝ).Movable

open Assembly (SamePlan)

namespace Act

variable {st : Session ℝ} {c : ConstraintId} {apex ray arm : NodeId} {w : ℝ} {k : Corner ℝ}

theorem clearBoost_hinged {a : Assembly ℝ} (h : a.Hinged c apex ray arm w)
    (hk : k = ⟨a.node apex, a.node ray, a.node arm⟩) : k.clearBoost =
      ⟨(a.clearBoosts (a.nodesOf [c])).node apex, (a.clearBoosts (a.nodesOf [c])).node ray,
        (a.clearBoosts (a.nodesOf [c])).node arm⟩ := by
  have hnodes : a.nodesOf [c] = [apex, ray, arm] := by
    unfold Assembly.nodesOf
    rw [List.flatMap_singleton, h.shape]
    rfl
  rw [hnodes, Assembly.node_clearBoosts, Assembly.node_clearBoosts, Assembly.node_clearBoosts, if_pos (by simp),
    if_pos (by simp), if_pos (by simp), hk]
  rfl

/-- A sweep over a triple is one pass. -/
theorem runs_bareSweep_triple {a : Assembly ℝ} (h : a.Hinged c apex ray arm w)
    (hk : k = ⟨a.node apex, a.node ray, a.node arm⟩) (hlong : ¬k.clearBoost.isFlat) {met : Bool} {k' : Corner ℝ}
    (hpass : rayPass (a.configOf c) w k.clearBoost = .ok met k') : Runs (bareSweep [c]) a fun r b =>
      r = .ok [met] ∧ b.node = k'.put apex ray arm (a.clearBoosts (a.nodesOf [c])).node := by
  have hcorner := clearBoost_hinged h hk
  refine runs_bareSweep_lone ?_
  set cleared := a.clearBoosts (a.nodesOf [c])
  have hplan : SamePlan a cleared := (Assembly.corrected_clearBoosts (List.Subset.refl _) a).samePlan
  have hshape : (cleared.constraint c).shape = .triple apex ray arm := by rw [hplan.constraint, h.shape]
  have hangle : (cleared.constraint c).angleTarget = some (.fixed w) := by rw [hplan.constraint, h.angle]
  rw [hcorner] at hlong
  rw [hcorner, ← hplan.configOf c] at hpass
  exact runs_correctOne_triple hshape hangle hlong hpass

/-- A sweep over a triple that can be swung brings it nearer to its ray. -/
theorem runs_bareSweep_hinged {a : Assembly ℝ} (h : a.Hinged c apex ray arm w)
    (hk : k = ⟨a.node apex, a.node ray, a.node arm⟩) : Runs (bareSweep [c]) a fun r b =>
      r = .ok [k.met w (a.configOf c).tolerance] ∧ SamePlan a b ∧ b.Hinged c apex ray arm w ∧
        k.Nears w 1 ⟨b.node apex, b.node ray, b.node arm⟩ := by
  have hcorner := clearBoost_hinged h hk
  have hmovable : k.Movable := by
    rw [hk]
    exact h.movable
  obtain ⟨k', hpass, hswung, hmovable'⟩ := hmovable.rayPass (a.configOf c) w
  refine ((runs_bareSweep_triple h hk (Corner.not_isFlat hmovable.long_clearBoost) hpass).and
    (runs_bareSweep a [c])).mono ?_
  rintro _ b ⟨⟨rfl, hnode⟩, hcorrected⟩
  have hapex : k'.apex = (a.clearBoosts (a.nodesOf [c])).node apex := by
    rw [hswung.apex, hcorner]
  have hray : k'.ray = (a.clearBoosts (a.nodesOf [c])).node ray := by
    rw [hswung.ray, hcorner]
  have hend : (⟨b.node apex, b.node ray, b.node arm⟩ : Corner ℝ) = k' := by
    rw [hnode, Corner.put_other hapex hray h.distinct.1, Corner.put_other hapex hray h.distinct.2, Corner.put_arm,
      ← hapex, ← hray]
  have hplan := hcorrected.samePlan
  rw [hend]
  refine ⟨rfl, hplan, ⟨?_, h.distinct, ?_, ?_⟩, hswung.nears⟩
  · rw [hplan.shape, h.shape]
  · rw [hplan.angleTarget, h.angle]
  · rwa [hend]

/-- So sweeps in a row bring it nearer and nearer. -/
theorem swept_hinged (h : st.assembly.Hinged c apex ray arm w)
    (hk : k = ⟨st.assembly.node apex, st.assembly.node ray, st.assembly.node arm⟩) (sweeps : ℕ) :
    SamePlan st.assembly (swept [c] sweeps st).assembly ∧ (swept [c] sweeps st).assembly.Hinged c apex ray arm w ∧
      k.Nears w sweeps ⟨(swept [c] sweeps st).assembly.node apex, (swept [c] sweeps st).assembly.node ray,
        (swept [c] sweeps st).assembly.node arm⟩ := by
  -- a triple stays hinged when it is swept, so each sweep starts where the lemma for one sweep applies
  induction sweeps with
  | zero =>
    refine ⟨.refl _, h, ?_⟩
    rw [hk]
    exact .refl w _
  | succ i ih =>
    obtain ⟨hplan, hhinged, hnears⟩ := ih
    obtain ⟨-, hplan', hhinged', hnears'⟩ := (runs_bareSweep_hinged hhinged rfl).at_session
    rw [after_bareSweep] at hplan' hhinged' hnears'
    exact ⟨hplan.trans hplan', hhinged', hnears.succ hnears'⟩

/-- What each sweep answers. -/
theorem answer_bareSweep_hinged (h : st.assembly.Hinged c apex ray arm w)
    (hk : k = ⟨st.assembly.node apex, st.assembly.node ray, st.assembly.node arm⟩) (sweeps : ℕ) : ∃ met,
      (bareSweep [c]).answer (swept [c] sweeps st) = .ok [met] ∧
        (met = true ↔ |(1 - k.clearBoost.armPart) ^ sweeps * k.miss w * Real.sin (k.rayAngle w)| <
            (st.assembly.configOf c).tolerance ∧
          |(1 - k.clearBoost.armPart) ^ sweeps * k.miss w * Real.cos (k.rayAngle w)| <
            (st.assembly.configOf c).tolerance) := by
  obtain ⟨hplan, hhinged, hnears⟩ := swept_hinged h hk sweeps
  obtain ⟨hanswer, -⟩ := (runs_bareSweep_hinged hhinged rfl).at_session
  refine ⟨_, hanswer, ?_⟩
  rw [Corner.met_iff, hnears.miss, Corner.rayAngle_congr hnears.ray, hplan.configOf]

/-- A correction of a triple whose arm can be moved. -/
theorem runs_correctOne_swings {a : Assembly ℝ} (hshape : (a.constraint c).shape = .triple apex ray arm)
    (hapexArm : apex ≠ arm) (hrayArm : ray ≠ arm) (hangle : (a.constraint c).angleTarget = some (.fixed w))
    (hk : k = ⟨a.node apex, a.node ray, a.node arm⟩) (hapex : k.apex.Heavy) (harm : k.arm.Heavy)
    (hfree : k.arm.base = false) (hlong : Scalar.rootEpsilon < k.rayVector.length) : Runs (correctOne c) a fun r b =>
      r = .ok (k.met w (a.configOf c).tolerance) ∧ (∀ n, n ≠ arm → b.node n = a.node n) ∧
        k.Swung w k.armPart ⟨b.node apex, b.node ray, b.node arm⟩ := by
  obtain ⟨k', hpass, hswung⟩ :=
    rayPass_swings (a.configOf c) w hlong hapex.effectiveMass_pos hfree (harm.effectiveMass_pos hfree)
  have hapex' : k'.apex = a.node apex := by
    rw [hswung.apex, hk]
  have hray' : k'.ray = a.node ray := by
    rw [hswung.ray, hk]
  have hflat := Corner.not_isFlat hlong
  rw [hk] at hflat hpass
  refine (runs_correctOne_triple hshape hangle hflat hpass).mono ?_
  rintro _ b ⟨rfl, hnode⟩
  have hother (n : NodeId) (hn : n ≠ arm) : b.node n = a.node n := by
    rw [hnode, Corner.put_other hapex' hray' hn]
  refine ⟨by rw [hk], hother, ?_⟩
  rwa [hother apex hapexArm, hother ray hrayArm, hnode, Corner.put_arm, ← hapex', ← hray']

/-- In exact arithmetic, for a triple with a fixed angle, whose arm is no base node and whose first ray is long enough: a
correction moves no node but the arm, leaves how far the arm is out along its ray, and takes from what the arm misses that
ray by the part that the arm has in the inverse masses of arm and apex.  In a row of sweeps over the triple alone this is
the same part every time.  So a run answers the number of the first sweep in which both coordinates of the correction are
below the tolerance, if that is within the cap, and zero otherwise. -/
theorem correct_contracts (st : Session ℝ) (c : ConstraintId) (apex ray arm : NodeId)
    (hshape : (st.assembly.constraint c).shape = .triple apex ray arm) (hdistinct : [apex, ray, arm].Nodup) (w : ℝ)
    (hangle : (st.assembly.constraint c).angleTarget = some (.fixed w)) (tolerance : ℝ)
    (htolerance : tolerance = (st.assembly.configOf c).tolerance) (k k' : Corner ℝ)
    (hk : k = ⟨st.assembly.node apex, st.assembly.node ray, st.assembly.node arm⟩)
    (hk' : k' = ⟨((correctOne c).after st).assembly.node apex, ((correctOne c).after st).assembly.node ray,
      ((correctOne c).after st).assembly.node arm⟩)
    (hapex : k.apex.Heavy) (harm : k.arm.Heavy) (hfree : k.arm.base = false)
    (hlong : Scalar.rootEpsilon < k.rayVector.length) (θ : ℝ) (hθ : θ = k.rayVector.angle + w) (o : ℝ)
    (ho : o = offset k.armVector.toComplex θ) (m : ℝ) (hm : m = k.clearBoost.armPart) :
    (∃ met, (correctOne c).answer st = .ok met ∧
        (met = true ↔ |o * Real.sin θ| < tolerance ∧ |o * Real.cos θ| < tolerance)) ∧
      (∀ n, n ≠ arm → ((correctOne c).after st).assembly.node n = st.assembly.node n) ∧
      advance k'.armVector.toComplex θ = advance k.armVector.toComplex θ ∧
      offset k'.armVector.toComplex θ = (1 - k.armPart) * o ∧
      (0 < m ∧ m ≤ 1) ∧
      (∀ i, offset (((swept [c] i st).assembly.node apex).vectorTo ((swept [c] i st).assembly.node arm)).toComplex θ =
        (1 - m) ^ i * o) ∧
      ∀ s, (st.assembly.system s).constraints = [c] → ∀ cap, cap = (st.assembly.config (st.assembly.system s).config).cap →
        ∀ sweeps : Set ℕ, sweeps = {n | 1 ≤ n ∧ |(1 - m) ^ (n - 1) * o * Real.sin θ| < tolerance ∧
          |(1 - m) ^ (n - 1) * o * Real.cos θ| < tolerance} →
        (∀ n, 1 ≤ n → ((correct s).answer st = .ok n ↔ n ≤ cap ∧ IsLeast sweeps n)) ∧
        ((∀ n ∈ sweeps, cap < n) → (correct s).answer st = .ok 0) := by
  have hdistinct' : apex ≠ arm ∧ ray ≠ arm := by
    simp only [List.nodup_cons, List.mem_cons, List.not_mem_nil, or_false, not_or] at hdistinct
    exact ⟨hdistinct.1.2, hdistinct.2.1⟩
  obtain ⟨hanswer, hother, hswung⟩ := (runs_correctOne_swings hshape hdistinct'.1 hdistinct'.2 hangle hk hapex harm hfree
    hlong).at_session
  rw [← hk'] at hswung
  have hhinged : st.assembly.Hinged c apex ray arm w := by
    refine ⟨hshape, hdistinct', hangle, ?_⟩
    rw [← hk]
    exact ⟨hlong, fun h => (hapex.resolve_left (by simp [h])).1, (harm.resolve_left (by simp [hfree])).1, hfree⟩
  have hangle' : k.rayAngle w = θ := hθ.symm
  have hmiss : k.miss w = o := by
    rw [ho, ← hangle']
    rfl
  refine ⟨⟨_, hanswer, ?_⟩, hother, ?_, ?_, ?_, fun i => ?_, fun s hone cap hcap sweeps hsweeps => ?_⟩
  · rw [Corner.met_iff, hmiss, hangle', htolerance]
  · rw [← hangle']
    exact hswung.advance
  · rw [← hmiss, ← hangle', ← hswung.rayAngle]
    exact hswung.miss
  · rw [hm, hk]
    exact hhinged.movable.armPart
  · have hnears := (swept_hinged hhinged hk i).2.2
    rw [hm, ← hmiss, ← hangle', ← Corner.rayAngle_congr hnears.ray]
    exact hnears.miss
  · choose met hmet hiff using fun i => answer_bareSweep_hinged hhinged hk i
    obtain ⟨hcounted, hnever⟩ := correct_lone hone hmet
    -- the sweeps that are met are those in which both coordinates are near enough
    have hset : {n | 1 ≤ n ∧ met (n - 1) = true} = sweeps := by
      ext n
      rw [hsweeps, Set.mem_ofPred_eq, Set.mem_ofPred_eq, hiff, hmiss, hangle', ← hm, ← htolerance]
    rw [hset, ← hcap] at hcounted
    refine ⟨hcounted, fun hlate => hnever fun n hn hle => ?_⟩
    by_contra hmet'
    have hmem : n ∈ sweeps := by
      rw [← hset]
      exact ⟨hn, (Bool.not_eq_false _).mp hmet'⟩
    have := hlate n hmem
    omega

/-- A triple of free nodes, the arm of which is two off its ray. -/
noncomputable def bentArm : Session ℝ :=
  run [.newConfig ⟨.int 256, 1, 1⟩, .newSystem (some 0), .node 0 0 0 { mass := some none },
    .node 0 1 0 { mass := some none }, .node 0 0 (1 + 1) { mass := some none },
    .triple 0 0 1 2 { angle := some (.number (.float 0)) }] ⟨.empty ⟨.int 256, 1, 1⟩, .empty Level.warning⟩

noncomputable def bentCorner : Corner ℝ := ⟨bentArm.assembly.node 0, bentArm.assembly.node 1, bentArm.assembly.node 2⟩

theorem bentCorner_rayVector : bentCorner.rayVector.toComplex = 1 := by
  apply Complex.ext
  · exact sub_zero 1
  · exact sub_zero 0

theorem bentCorner_armPart : bentCorner.clearBoost.armPart = 1 / 2 := by
  have hapex : bentCorner.clearBoost.apex.mobility = 1 / (1 + 0) := if_neg (by decide)
  have harm : bentCorner.clearBoost.arm.mobility = 1 / (1 + 0) := if_neg (by decide)
  rw [Corner.armPart, hapex, harm]
  norm_num

/-- It is halfway there after each sweep, so the third one finds it near enough. -/
theorem correct_contracts_bent : (correct 0).answer bentArm = .ok 3 := by
  have hlong : Scalar.rootEpsilon < bentCorner.rayVector.length := by
    rw [Vec.length_eq_norm, bentCorner_rayVector, norm_one]
    exact inv_lt_one_of_one_lt₀ (by norm_num)
  have hangle : 0 = bentCorner.rayVector.angle + 0 := by
    have hray : bentCorner.rayVector.angle = Complex.arg bentCorner.rayVector.toComplex := rfl
    rw [hray, bentCorner_rayVector, Complex.arg_one, add_zero]
  have hmiss : 1 + 1 = offset bentCorner.armVector.toComplex 0 := by
    have harm : bentCorner.armVector.toComplex = ⟨0 - 0, 1 + 1 - 0⟩ := rfl
    rw [harm, offset, Real.sin_zero, Real.cos_zero]
    norm_num
  obtain ⟨-, -, -, -, -, -, hruns⟩ := correct_contracts bentArm 0 0 1 2 rfl (by decide) 0 rfl 1 rfl bentCorner _ rfl rfl
    (Or.inr ⟨zero_lt_one, le_refl 0⟩) (Or.inr ⟨zero_lt_one, le_refl 0⟩) rfl hlong 0 hangle (1 + 1) hmiss (1 / 2)
    bentCorner_armPart.symm
  obtain ⟨hcounted, -⟩ := hruns 0 rfl 256 rfl _ rfl
  refine (hcounted 3 (by omega)).mpr ⟨by omega, ⟨by omega, ?_, ?_⟩, ?_⟩
  · norm_num
  · norm_num [abs_lt]
  · rintro n ⟨hn, -, hnear⟩
    by_contra hlt
    obtain rfl | rfl : n = 1 ∨ n = 2 := by omega
    · norm_num at hnear
    · norm_num at hnear

end Act

end Linkage
