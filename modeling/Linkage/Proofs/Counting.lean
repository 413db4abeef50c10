import Linkage.Proofs.Divisors
import Linkage.Proofs.Freezing
import Linkage.Proofs.Swinging

/-!
# Linkage.Proofs.Counting — what the boosts count

Every sweep clears the boosts of the nodes that its constraints join, and each pass that runs counts once for the nodes it
was given.  In a sweep that meets every constraint no bar is stretched, so what counts is the turning of pairs and the
swinging of triples (`Corrects.boost_eq`).  Pairs with a wanted angle are always turned; triples are swung if their first
ray is long enough in the state in which they are corrected.  The last sweep of a run that succeeds is such a sweep, and
nothing after it touches the nodes: the boosts are the counts of this sweep (`correct_counts`).
-/

namespace Linkage

variable {α : Type} [Scalar α]

/-- As many ones as that, added to zero one after the other. -/
def Scalar.tally (count : Nat) : α := (· + 1)^[count] 0

/-- In exact arithmetic that is the number of them. -/
theorem Scalar.tally_real (count : Nat) : (Scalar.tally count : ℝ) = count := by
  unfold Scalar.tally
  induction count with
  | zero => exact Nat.cast_zero.symm
  | succ count ih => rw [Function.iterate_succ_apply', ih, Nat.cast_succ]

namespace Constraint

/-- Whether turning the constraint counts for a node: it is a pair that wants an angle, and joins the node. -/
def turns (k : Constraint α) (n : NodeId) : Bool :=
  match k.shape with
  | .pair first second _ => k.angleTarget.isSome && (first == n || second == n)
  | .triple .. => false

/-- Whether swinging the constraint counts for a node, with all nodes as they are: it is a triple that wants an angle, the
node is its arm, and its first ray is not too short. -/
def swings (k : Constraint α) (node : NodeId → Node α) (n : NodeId) : Bool :=
  match k.shape with
  | .pair .. => false
  | .triple apex ray arm => k.angleTarget.isSome && arm == n && !(⟨node apex, node ray, node arm⟩ : Corner α).isFlat

/-- No correction is both. -/
theorem turns_swings (k : Constraint α) (node : NodeId → Node α) (n : NodeId) :
    k.turns n = false ∨ k.swings node n = false := by
  unfold turns swings
  cases k.shape with
  | pair => exact Or.inr rfl
  | triple => exact Or.inl rfl

end Constraint

/-! ### One correction -/

section Correction

variable {cfg : Config α} {node node' : NodeId → Node α} {met : Bool} {n : NodeId}

theorem Node.boost_addBoost {v : Node α} (hfree : v.base = false) : v.addBoost.boost = v.boost + 1 := by
  unfold addBoost
  rw [if_neg (by simp [hfree])]

theorem Node.boost_clearBoost {v : Node α} (hfree : v.base = false) : v.clearBoost.boost = 0 := by
  unfold clearBoost
  rw [if_neg (by simp [hfree])]

/-- Pulling ends within reach counts for neither. -/
theorem Pulls.uncounted {share : α × α} {e e' : Ends α} (h : Pulls cfg share e met e') :
    (e'.first.boost = e.first.boost ∧ e'.first.base = e.first.base) ∧
      e'.second.boost = e.second.boost ∧ e'.second.base = e.second.base := by
  cases h with
  | within => exact ⟨⟨rfl, rfl⟩, rfl, rfl⟩
  | beyond => exact ⟨⟨rfl, rfl⟩, rfl, rfl⟩

/-- Turning ends counts once for each that is no base node. -/
theorem Turns.counted {direction : Direction} {target : α} {e e' : Ends α} (h : Turns cfg direction target e met e') :
    (e.first.base = false → e'.first.boost = e.first.boost + 1) ∧
      (e.second.base = false → e'.second.boost = e.second.boost + 1) := by
  cases h with
  | turned _ _ _ e'' _ _ pulls =>
    obtain ⟨⟨hfirst, hfirstBase⟩, hsecond, hsecondBase⟩ := pulls.uncounted
    constructor
    · intro hfree
      exact (Node.boost_addBoost (hfirstBase.trans hfree)).trans (congrArg (· + 1) hfirst)
    · intro hfree
      exact (Node.boost_addBoost (hsecondBase.trans hfree)).trans (congrArg (· + 1) hsecond)

/-- Swinging the arm of a triple counts once for it. -/
theorem Swings.counted {k k' : Corner α} (h : Swings cfg k met k') :
    k'.apex = k.apex ∧ k'.ray = k.ray ∧ (k.arm.base = false → k'.arm.boost = k.arm.boost + 1) := by
  cases h with
  | swung =>
    refine ⟨rfl, rfl, fun hfree => ?_⟩
    exact Node.boost_addBoost hfree

/-- Turning the ends of a pair, where an angle is wanted, counts once for both and for no other node. -/
theorem Meets.boost_eq {direction : Direction} {first second : NodeId} {t? : Option (Target α)}
    (h : Meets (anglePass cfg direction) first second node t? met node') (hfree : (node n).base = false) :
    (node' n).boost = if t?.isSome && (first == n || second == n) then (node n).boost + 1 else (node n).boost := by
  cases h with
  | free => rfl
  | passed t target met e value ran =>
    obtain ⟨hfirst, hsecond⟩ := (turns_of_anglePass ran).counted
    show (if second = n then e.second else if first = n then e.first else node n).boost = _
    by_cases hn : second = n
    · subst hn
      rw [if_pos rfl, if_pos (by simp)]
      exact hsecond hfree
    · rw [if_neg hn]
      by_cases hn' : first = n
      · subst hn'
        rw [if_pos rfl, if_pos (by simp)]
        exact hfirst hfree
      · rw [if_neg hn', if_neg (by simp [hn, hn'])]

/-- Correcting a triple moves nothing if it wants no angle or its first ray is too short, and swings its arm otherwise. -/
theorem Corrects.triple_cases {k : Constraint α} (h : Corrects cfg k node met node') {apex ray arm : NodeId}
    (hshape : k.shape = .triple apex ray arm) :
    ((k.angleTarget = none ∨ (⟨node apex, node ray, node arm⟩ : Corner α).isFlat) ∧ node' = node) ∨
      ∃ corner, k.angleTarget.isSome ∧ ¬(⟨node apex, node ray, node arm⟩ : Corner α).isFlat ∧
        Swings cfg ⟨node apex, node ray, node arm⟩ met corner ∧ node' = corner.put apex ray arm node := by
  cases h with
  | pair shape => cases hshape.symm.trans shape
  | idle shape idle =>
    cases hshape.symm.trans shape
    exact Or.inl ⟨idle, rfl⟩
  | triple shape angle swings long =>
    cases hshape.symm.trans shape
    exact Or.inr ⟨_, angle, long, swings, rfl⟩

/-- Putting back a corner of which the arm alone was swung counts once for the arm. -/
theorem Swings.boost_put {apex ray arm : NodeId} {corner : Corner α}
    (h : Swings cfg ⟨node apex, node ray, node arm⟩ met corner) (hfree : (node n).base = false) :
    (corner.put apex ray arm node n).boost = if arm = n then (node n).boost + 1 else (node n).boost := by
  obtain ⟨hapex, hray, harm⟩ := h.counted
  show (if arm = n then corner.arm else if ray = n then corner.ray else if apex = n then corner.apex else node n).boost = _
  by_cases hn : arm = n
  · subst hn
    rw [if_pos rfl, if_pos rfl]
    exact harm hfree
  · rw [if_neg hn, if_neg hn]
    split
    case isTrue hn => rw [← hn, hray]
    case isFalse =>
      split
      case isTrue hn => rw [← hn, hapex]
      case isFalse => rfl

/-- A correction that meets its constraint counts once for the nodes of a pair with a wanted angle, once for the arm of a
triple with one and a first ray that is not too short, and for no other node. -/
theorem Corrects.boost_eq {k : Constraint α} (h : Corrects cfg k node true node') (hfree : (node n).base = false) :
    (node' n).boost = if k.turns n || k.swings node n then (node n).boost + 1 else (node n).boost := by
  cases hshape : k.shape with
  | pair first second direction =>
    rw [(h.pair_met hshape).1.boost_eq hfree]
    simp [Constraint.turns, Constraint.swings, hshape]
  | triple apex ray arm =>
    rcases h.triple_cases hshape with ⟨hnone | hflat, rfl⟩ | ⟨corner, hangle, hlong, hswings, rfl⟩
    · simp [Constraint.turns, Constraint.swings, hshape, hnone]
    · simp [Constraint.turns, Constraint.swings, hshape, hflat]
    · rw [hswings.boost_put hfree]
      simp [Constraint.turns, Constraint.swings, hshape, hangle, hlong]

end Correction

/-! ### One sweep -/

namespace Act

open Assembly (Corrected)

variable {st : Session α} {n : NodeId}

/-- How many of the corrections count for a node when constraints are corrected one after the other: those of pairs with a
wanted angle that join it, and those of triples with a wanted angle that have it as their arm and a first ray that is not
too short in the session that `before` says their turn comes in. -/
def counted (cs : List ConstraintId) (constraint : ConstraintId → Constraint α)
    (before : List ConstraintId → Session α) (n : NodeId) : Nat :=
  cs.countP (fun c => (constraint c).turns n) +
    cs.zipIdx.countP fun r => (constraint r.1).swings (before (cs.take r.2)).assembly.node n

/-- The first correction counts in the session as it is, and the others count after it. -/
theorem counted_cons (c : ConstraintId) (cs : List ConstraintId) (constraint : ConstraintId → Constraint α)
    (before : List ConstraintId → Session α) (n : NodeId) : counted (c :: cs) constraint before n =
      counted cs constraint (fun done => before (c :: done)) n +
        if (constraint c).turns n || (constraint c).swings (before []).assembly.node n then 1 else 0 := by
  have hshift : ((c :: cs).zipIdx.countP fun r =>
      (constraint r.1).swings (before ((c :: cs).take r.2)).assembly.node n) =
        (cs.zipIdx.countP fun r => (constraint r.1).swings (before (c :: cs.take r.2)).assembly.node n) +
          if (constraint c).swings (before []).assembly.node n then 1 else 0 := by
    rw [List.zipIdx_cons, List.zipIdx_succ, List.countP_cons, List.countP_map]
    rfl
  have hone := (constraint c).turns_swings (before []).assembly.node n
  unfold counted
  rw [hshift, List.countP_cons]
  rcases hone with hturns | hswings
  · simp only [hturns, Bool.false_eq_true, if_false, Bool.false_or]
    omega
  · simp only [hswings, Bool.false_eq_true, if_false, Bool.or_false]
    omega

/-- Corrections that meet all of their constraints count for a node as often as that. -/
theorem boost_answersOf {cs : List ConstraintId} {answers : List Bool} (hanswers : (answersOf cs).answer st = .ok answers)
    (hmet : ∀ met ∈ answers, met = true) (hfree : (st.assembly.node n).base = false) :
    (((answersOf cs).after st).assembly.node n).boost =
      (· + 1)^[counted cs st.assembly.constraint (fun before => (answersOf before).after st) n]
        (st.assembly.node n).boost := by
  -- by induction on the constraints: each correction counts once if it turns or swings the node, and the counts add up
  induction cs generalizing st answers with
  | nil => rfl
  | cons c rest ih =>
    obtain ⟨met, hfirst, hrest⟩ := answer_bind_eq_ok hanswers
    obtain ⟨later, hlater, hpure⟩ := answer_bind_eq_ok hrest
    obtain rfl : met :: later = answers := Except.ok.inj hpure
    obtain ⟨rfl, hothers⟩ := List.forall_mem_cons.mp hmet
    have hafter (done : List ConstraintId) :
        (answersOf (c :: done)).after st = (answersOf done).after ((correctOne c).after st) :=
      (after_bind_ok hfirst).trans after_bind_pure
    have hcorrects := (runs_correctOne_ok st.assembly c).at_session true hfirst
    have hcorrected : Corrected (st.assembly.constraint c).shape.nodes st.assembly ((correctOne c).after st).assembly :=
      (runs_correctOne (List.Subset.refl _)).at_session
    have hfree' : (((correctOne c).after st).assembly.node n).base = false := (hcorrects.worked n).body.2.1.trans hfree
    have hstep := hcorrects.boost_eq hfree
    have hconstraint : ((correctOne c).after st).assembly.constraint = st.assembly.constraint :=
      funext hcorrected.constraint
    -- the count of the rest is taken where the first correction has left the assembly
    rw [hafter, ih hlater hothers hfree', hconstraint, counted_cons, Function.iterate_add_apply]
    simp only [hafter]
    refine congrArg _ (hstep.trans ?_)
    show _ = (· + 1)^[if (st.assembly.constraint c).turns n || (st.assembly.constraint c).swings st.assembly.node n
      then 1 else 0] (st.assembly.node n).boost
    split
    case isTrue => rfl
    case isFalse => rfl

/-- A sweep that meets all of its constraints counts from zero for the nodes that they join. -/
theorem boost_bareSweep {cs : List ConstraintId} {answers : List Bool} (hanswers : (bareSweep cs).answer st = .ok answers)
    (hmet : ∀ met ∈ answers, met = true) (hfree : (st.assembly.node n).base = false) (hmem : n ∈ st.assembly.nodesOf cs) :
    (((bareSweep cs).after st).assembly.node n).boost =
      Scalar.tally (counted cs st.assembly.constraint (fun before => midsweep cs before st) n) := by
  set cleared := (change fun a => a.clearBoosts (a.nodesOf cs)).after st with hcleared
  have hanswers : (answersOf cs).answer cleared = .ok answers := hanswers
  have hstart : cleared.assembly.node n = (st.assembly.node n).clearBoost := by
    show (st.assembly.clearBoosts (st.assembly.nodesOf cs)).node n = _
    rw [Assembly.node_clearBoosts, if_pos hmem]
  have hfree' : (cleared.assembly.node n).base = false := by
    rw [hstart]
    exact (Node.Worked.cleared .start).body.2.1.trans hfree
  have hdesign : cleared.assembly.constraint = st.assembly.constraint :=
    funext (Assembly.corrected_clearBoosts (List.Subset.refl (st.assembly.nodesOf cs)) st.assembly).constraint
  have hcount := boost_answersOf hanswers hmet hfree'
  rw [hstart, Node.boost_clearBoost hfree, hdesign] at hcount
  exact hcount

/-! ### Whole runs -/

/-- After a run that took `k` sweeps, the boost of a free node which constraints join is the number of corrections that
counted for it in the last of them: one for each registration of a pair with a wanted angle that joins it, and one for each
registration of a triple with a wanted angle that has it as its arm and had a first ray that was not too short when it was
corrected.  The boosts of base nodes, and of nodes that no constraint joins, are as they were. -/
theorem correct_counts (st : Session α) (s : SystemId) (cs : List ConstraintId)
    (hcs : cs = (st.assembly.system s).constraints) (k : Nat) (hk : 1 ≤ k) (hanswer : (correct s).answer st = .ok k)
    (n : NodeId) (v v' : Node α) (hv : v = st.assembly.node n) (hv' : v' = ((correct s).after st).assembly.node n) :
    (v.base = false → n ∈ st.assembly.nodesOf cs →
      v'.boost = Scalar.tally (cs.countP (fun c => (st.assembly.constraint c).turns n) +
        cs.zipIdx.countP fun r => (st.assembly.constraint r.1).swings
          (midsweep cs (cs.take r.2) (swept cs (k - 1) st)).assembly.node n)) ∧
      (v.base = true ∨ n ∉ st.assembly.nodesOf cs → v'.boost = v.boost) := by
  obtain ⟨-, hconverges⟩ := ((correct_eq_ok_iff st s).1 k hk).mp hanswer
  have hnode := node_correct hk hanswer
  rw [← hcs] at hconverges hnode
  rw [hnode] at hv'
  subst hv hv'
  constructor
  -- the last sweep clears all boosts before it, so that nothing of the others is left
  · intro hfree hmem
    obtain ⟨i, rfl⟩ : ∃ i, k = i + 1 := ⟨k - 1, (Nat.sub_add_cancel hk).symm⟩
    obtain ⟨answers, hanswers, hmet, -⟩ := hconverges.sweeps (Nat.lt_succ_self i)
    have hcorrected := corrected_swept cs i st
    have hfree' : ((swept cs i st).assembly.node n).base = false :=
      (hconverges.worked (Nat.le_succ i) n).body.2.1.trans hfree
    rw [← hcorrected.samePlan.nodesOf] at hmem
    have hcount := boost_bareSweep hanswers (hmet rfl) hfree' hmem
    rw [after_bareSweep, show (swept cs i st).assembly.constraint = st.assembly.constraint from
      funext hcorrected.constraint] at hcount
    exact hcount
  · rintro (hbase | hother)
    · exact (hconverges.worked (Nat.le_refl k) n).body.2.2.2 hbase
    · rw [(corrected_swept cs k st).outside n hother]

/-- Two bars in line along the x-axis: their joint is the ray of a triple, and their end is its arm. -/
noncomputable def straightArm : Session ℝ :=
  run [.newConfig ⟨.int 1, 1, 1⟩, .newSystem (some 0), .node 0 0 0 { base := some true, mass := some none },
    .node 0 1 0 { mass := some none }, .node 0 (1 + 1) 0 { mass := some none },
    .triple 0 0 1 2 { angle := some (.marker "const") }, .pair 0 1 2 { angle := some (.number (.float 0)) },
    .modifyNode 2 Node.addBoost] ⟨.empty ⟨.int 1, 1, 1⟩, .empty Level.warning⟩

theorem coherent_straightArm : ∃ made, Assembly.Coherent made straightArm.assembly :=
  ⟨_, coherent_run_empty (genuine_of_references (by simp [Operation.references, Spec.references]))⟩

/-- The triple is frozen, and the pair lies on the line that it wants. -/
theorem rests_straightArm : ∀ c ∈ [0, 1], straightArm.assembly.Rests c := by
  have hheavy : (straightArm.assembly.node 0).Heavy ∧ (straightArm.assembly.node 1).Heavy ∧
      (straightArm.assembly.node 2).Heavy := by
    refine ⟨Or.inl rfl, Or.inr ⟨zero_lt_one, le_refl 0⟩, Or.inr ⟨zero_lt_one, ?_⟩⟩
    show (0 : ℝ) ≤ 0 + 1
    norm_num
  have hplace : (straightArm.assembly.node 2).place - (straightArm.assembly.node 1).place = 1 := by
    show (⟨1 + 1, 0⟩ : ℂ) - ⟨1, 0⟩ = 1
    apply Complex.ext
    · exact add_sub_cancel_right 1 1
    · exact sub_self 0
  intro c hc
  obtain rfl | rfl : c = 0 ∨ c = 1 := by simpa using hc
  · have hmade : Constraint.triple straightArm.assembly.node 0 1 2 { angle := some (.marker "const") } =
        .ok { straightArm.assembly.constraint 0 with owner := none } := rfl
    obtain ⟨hnodup, hlength, hangle⟩ := Constraint.frozen_of_triple hmade (.word (by decide))
    exact rests_of_frozen_triple ⟨hnodup, hlength, hangle⟩ rfl hheavy.1 hheavy.2.2 zero_lt_one
  · refine Assembly.Settled.rests ⟨1, 2, .either, rfl, by decide, hheavy.2, zero_lt_one, ?_, ?_⟩
    · rintro t ⟨⟩
      rw [hplace, norm_one]
      refine ⟨0, rfl, ?_, Or.inl rfl, le_refl 1⟩
      simp [offset]
    · rintro t ⟨⟩

/-- With the boosts cleared, the first ray of the triple is still not too short. -/
theorem swings_straightArm : (straightArm.assembly.constraint 0).swings
    (midsweep [0, 1] [] straightArm).assembly.node 2 = true := by
  set k : Corner ℝ := ⟨(midsweep [0, 1] [] straightArm).assembly.node 0,
    (midsweep [0, 1] [] straightArm).assembly.node 1, (midsweep [0, 1] [] straightArm).assembly.node 2⟩ with hk
  have hvector : k.rayVector = ⟨1 - 0, 0 - 0⟩ := rfl
  have hlength : k.rayVector.length = 1 := by
    rw [hvector, Vec.length_eq_of_sq zero_le_one (by norm_num)]
  have hlong : Scalar.rootEpsilon < k.rayVector.length := by
    rw [hlength]
    exact inv_lt_one_of_one_lt₀ (by norm_num)
  show (true && (2 == 2) && !k.isFlat) = true
  rw [Bool.eq_false_iff.mpr (Corner.not_isFlat hlong)]
  rfl

/-- A run counts the swinging of the triple and the turning of the pair for their end, and not what was counted before. -/
theorem correct_counts_straight : (correct 0).answer straightArm = .ok 1 ∧
    (straightArm.assembly.node 2).boost = 0 + 1 ∧ (((correct 0).after straightArm).assembly.node 2).boost = 2 := by
  obtain ⟨made, hcoherent⟩ := coherent_straightArm
  have hanswer := (runs_correct_resting hcoherent (s := 0) (by decide) rests_straightArm).at_session.1
  have hcounts := correct_counts straightArm 0 [0, 1] rfl 1 le_rfl hanswer 2 _ _ rfl rfl
  have hswings : (([0, 1] : List ConstraintId).zipIdx.countP fun r => (straightArm.assembly.constraint r.1).swings
      (midsweep [0, 1] ([0, 1].take r.2) (swept [0, 1] (1 - 1) straightArm)).assembly.node 2) = 1 := by
    show ((0, 0) :: [(1, 1)]).countP _ = 1
    exact List.countP_cons_of_pos swings_straightArm
  refine ⟨hanswer, rfl, (hcounts.1 rfl (by decide)).trans ?_⟩
  rw [hswings, Scalar.tally_real]
  show ((1 + 1 : ℕ) : ℝ) = 2
  norm_num

end Act

end Linkage
