import Linkage.Proofs.Exact
import Linkage.Proofs.Working
import Linkage.Proofs.Reading
import Linkage.Proofs.Rollback

/-!
# Linkage.Proofs.Repetition — relaxing a system that has just been relaxed

The sweep that meets every constraint may still move nodes, since constraints with wanted angles move their nodes by less
than the tolerance before they answer.  Where it moves none, relaxing again meets every constraint in one sweep and
changes nothing (`correct_again`): boosts are cleared first, so the sweep sees what the last one saw (`SameScene`), up to
the memory, which never shows.  Where it moves some, all may be lost (`lost_again`).
-/

namespace Linkage

variable {α : Type}

/-- The formula has the same value at any moment: a callable goes by the nodes and the shape of its owner. -/
def Formula.Timeless : Formula α → Prop
  | .callable read => ∀ v w : Sight α, v.node = w.node → v.owner = w.owner → read v = read w
  | _ => True

/-- The target has the same value at any moment. -/
def Target.Timeless : Target α → Prop
  | .fixed _ => True
  | .computed k => k.formula.Timeless

/-- The targets of the constraint have the same values at any moment. -/
def Constraint.Timeless (k : Constraint α) : Prop := ∀ t ∈ k.targets, t.Timeless

theorem Target.timeless_of_not_callable {t : Target α} (h : t.isCallable = false) : t.Timeless := by
  cases t with
  | fixed x => exact trivial
  | computed k =>
    obtain ⟨name, formula⟩ := k
    cases formula with
    | callable read => exact nomatch h
    | _ => exact trivial

variable [Scalar α]

/-! ### Nodes as they were -/

theorem Assembly.vectorTo_of_placed {a b : Assembly α} {p q : NodeId} (hp : Placed a b p) (hq : Placed a b q) :
    (b.node p).vectorTo (b.node q) = (a.node p).vectorTo (a.node q) := by
  unfold Node.vectorTo
  rw [hp.1, hp.2, hq.1, hq.2]

/-- Once their boosts are cleared, a node and what work without a move makes of it are the same. -/
theorem Node.Worked.clearBoost_eq {v w : Node α} (h : v.Worked w) (hx : w.x = v.x) (hy : w.y = v.y) :
    w.clearBoost = v.clearBoost := by
  obtain ⟨hmass, hbase, hname, hboost⟩ := h.body
  obtain ⟨x, y, base, mass, name, boost⟩ := v
  obtain ⟨x', y', base', mass', name', boost'⟩ := w
  dsimp only at hx hy hmass hbase hname hboost
  subst hx hy hmass hbase hname
  unfold clearBoost
  split
  case isTrue h => rw [hboost h]
  case isFalse => rfl

namespace Assembly

variable {a b a' b' : Assembly α} {made : List Reference} {constraints : List ConstraintId}

/-- `b` shows what `a` shows to the constraints of a list: the same design and the same nodes. -/
structure SameScene (made : List Reference) (constraints : List ConstraintId) (a b : Assembly α) : Prop
    extends SamePlan a b where
  node : b.node = a.node
  coherent : Coherent made a
  coherent' : Coherent made b
  timeless : ∀ c ∈ constraints, (a.constraint c).Timeless

namespace SameScene

theorem corrected (h : SameScene made constraints a b) {ns ns' : List NodeId} (ha : Corrected ns a a')
    (hb : Corrected ns' b b') (hnode : b'.node = a'.node) : SameScene made constraints a' b' where
  toSamePlan := h.toSamePlan.of_sameDesign ha.toSameDesign hb.toSameDesign
  node := hnode
  coherent := h.coherent.relaxed ha.relaxed
  coherent' := h.coherent'.relaxed hb.relaxed
  timeless c hc := by
    rw [ha.constraint]
    exact h.timeless c hc

theorem consulted (h : SameScene made constraints a b) {c : ConstraintId} {refs refs' : List Reference}
    (ha : Consulted c refs a a') (hb : Consulted c refs' b b') (hrefs : ∀ r ∈ refs, a.Cites r)
    (hrefs' : ∀ r ∈ refs', b.Cites r) : SameScene made constraints a' b' := by
  have ha' : Corrected [] a a' := ha.corrected hrefs
  refine h.corrected ha' (hb.corrected hrefs' : Corrected [] b b') (funext fun n => ?_)
  rw [ha.node, hb.node, h.node]

theorem setNode (h : SameScene made constraints a b) (n : NodeId) (v : Node α) :
    SameScene made constraints (a.setNode n v) (b.setNode n v) := by
  refine h.corrected (corrected_setNode (List.mem_singleton_self n) a v)
    (corrected_setNode (List.mem_singleton_self n) b v) (funext fun m => ?_)
  rw [node_setNode, node_setNode, h.node]

theorem length (h : SameScene made constraints a b) (c : ConstraintId) : b.length c = a.length c := by
  unfold Assembly.length
  rw [h.shape, h.node]

theorem angle (h : SameScene made constraints a b) (c : ConstraintId) : b.angle c = a.angle c := by
  unfold Assembly.angle
  rw [h.shape, h.node]

/-- A timeless formula has the same value in both. -/
theorem valueOf (h : SameScene made constraints a b) {f : Formula α} (hf : f.Timeless) (c : ConstraintId) :
    b.valueOf c f = a.valueOf c f := by
  cases f with
  | callable read => exact hf _ _ h.node (h.shape c)
  | _ =>
    simp only [Assembly.valueOf, Assembly.lengthThrough, Assembly.angleThrough, h.length, h.angle,
      h.toSamePlan.lookUp]

theorem targetValue (h : SameScene made constraints a b) {t : Target α} (ht : t.Timeless) (c : ConstraintId) :
    b.targetValue c t = a.targetValue c t := by
  cases t with
  | fixed x => rfl
  | computed k => exact h.valueOf ht c

theorem wanted (h : SameScene made constraints a b) {t? : Option (Target α)} (ht : ∀ t ∈ t?.toList, t.Timeless)
    (c : ConstraintId) : b.wanted c t? = a.wanted c t? := by
  cases t? with
  | none => rfl
  | some t => exact congrArg (some <$> ·) (h.targetValue (ht t (by simp)) c)

end SameScene

end Assembly

namespace Act

open Assembly (Coherent Corrected Placed Relaxed SameScene)

variable {made : List Reference} {constraints : List ConstraintId} {a b : Assembly α}

/-! ### Correcting the same scene -/

theorem agree_targetLength (h : SameScene made constraints a b) {c : ConstraintId} (hc : c ∈ constraints) :
    Agree Eq (SameScene made constraints) (targetLength c) (targetLength c) a b := by
  refine (runs_targetLength_of_coherent h.coherent c).mono fun r a' ⟨hr, ha⟩ =>
    (runs_targetLength_of_coherent h.coherent' c).mono fun r' b' ⟨hr', hb⟩ => ⟨?_, ?_⟩
  · rw [hr, hr', h.lengthTarget, h.wanted (fun t ht => h.timeless c hc t (List.mem_append_left _ ht))]
    exact matches_refl _
  · exact h.consulted ha hb (fun r hr => ⟨c, Or.inl hr⟩) fun r hr => ⟨c, Or.inl hr⟩

theorem agree_targetAngle (h : SameScene made constraints a b) {c : ConstraintId} (hc : c ∈ constraints) :
    Agree Eq (SameScene made constraints) (targetAngle c) (targetAngle c) a b := by
  refine (runs_targetAngle_of_coherent h.coherent c).mono fun r a' ⟨hr, ha⟩ =>
    (runs_targetAngle_of_coherent h.coherent' c).mono fun r' b' ⟨hr', hb⟩ => ⟨?_, ?_⟩
  · rw [hr, hr', h.angleTarget, h.wanted (fun t ht => h.timeless c hc t (List.mem_append_right _ ht))]
    exact matches_refl _
  · exact h.consulted ha hb (fun r hr => ⟨c, Or.inr hr⟩) fun r hr => ⟨c, Or.inr hr⟩

/-- Reading the wanted angle itself, where there is one. -/
theorem agree_evaluate (h : SameScene made constraints a b) {c : ConstraintId} (hc : c ∈ constraints) {t : Target α}
    (ht : (a.constraint c).angleTarget = some t) :
    Agree Eq (SameScene made constraints) (evaluate c t) (evaluate c t) a b := by
  have htimeless : t.Timeless := h.timeless c hc t (List.mem_append_right _ (by simp [ht]))
  have hcites : ∀ r ∈ Target.referencesOf (some t), a.Cites r := fun r hr => ⟨c, Or.inr (by rwa [ht])⟩
  have hcites' : ∀ r ∈ Target.referencesOf (some t), b.Cites r := fun r hr => (h.cites r).mpr (hcites r hr)
  obtain ⟨hapart, hhonest⟩ := h.coherent.stored (c := c) hcites
  obtain ⟨hapart', hhonest'⟩ := h.coherent'.stored (c := c) hcites'
  refine (runs_evaluate a c t).mono fun r a' ⟨ha, hr⟩ => (runs_evaluate b c t).mono fun r' b' ⟨hb, hr'⟩ => ⟨?_, ?_⟩
  · rw [hr hapart hhonest, hr' hapart' hhonest', h.targetValue htimeless]
    exact matches_refl _
  · exact h.consulted ha hb hcites hcites'

theorem blind_correctOne_sameScene {c : ConstraintId} (hc : c ∈ constraints) :
    Blind (α := α) (SameScene made constraints) (correctOne c) :=
  blind_correctOne_of ⟨SameScene.toSamePlan, SameScene.node, SameScene.setNode⟩ (fun _ _ h => agree_targetAngle h hc)
    (fun _ _ h => agree_targetLength h hc) fun h ht => agree_evaluate h hc ht

theorem blind_answersOf_sameScene {some : List ConstraintId} (hsome : some ⊆ constraints) :
    Blind (α := α) (SameScene made constraints) (answersOf some) := by
  induction some with
  | nil => exact blind_pure []
  | cons c rest ih =>
    obtain ⟨hc, hrest⟩ := List.cons_subset.mp hsome
    exact Blind.bind (blind_correctOne_sameScene hc) fun met => (ih hrest).bind fun later => blind_pure _

/-! ### Relaxing again -/

/-- A converging sweep that leaves the nodes in their places leaves them, once their boosts are cleared, as it found
them. -/
theorem Converges.clearBoosts_eq {s : SystemId} {k i : Nat} {st : Session α} (h : Converges s constraints k st)
    (hi : i < k)
    (hplaced : ∀ n, Placed (Act.swept constraints i st).assembly (Act.swept constraints (i + 1) st).assembly n)
    {b : Assembly α} (hb : b.node = (Act.swept constraints (i + 1) st).assembly.node) :
    (b.clearBoosts (st.assembly.nodesOf constraints)).node =
      ((Act.swept constraints i st).assembly.clearBoosts (st.assembly.nodesOf constraints)).node := by
  obtain ⟨answers, -, -, hsweeps⟩ := h.sweeps hi
  funext n
  have hworked := (Assembly.worked_clearBoosts (Act.swept constraints i st).assembly
    (st.assembly.nodesOf constraints) n).trans (hsweeps.worked n)
  rw [Assembly.node_clearBoosts, Assembly.node_clearBoosts, hb]
  split
  case isTrue => exact hworked.clearBoost_eq (hplaced n).1 (hplaced n).2
  case isFalse hn =>
    rw [(corrected_swept constraints i st).outside n hn, (corrected_swept constraints (i + 1) st).outside n hn]

/-- The last of converging sweeps leaves every node in its place if no constraint has a wanted angle. -/
theorem Converges.placed {s : SystemId} {i : Nat} {st : Session α} (h : Converges s constraints (i + 1) st)
    (hfree : ∀ c ∈ constraints, (st.assembly.constraint c).angleTarget = none) (n : NodeId) :
    Placed (Act.swept constraints i st).assembly (Act.swept constraints (i + 1) st).assembly n := by
  obtain ⟨answers, -, hmet, hsweeps⟩ := h.sweeps (Nat.lt_succ_self i)
  have hcleared := Assembly.placed_clearBoosts (Act.swept constraints i st).assembly
    (st.assembly.nodesOf constraints) n
  unfold Placed at hcleared ⊢
  rwa [hsweeps.node_eq (hmet rfl) hfree]

/-- Where the last of converging sweeps has moved nothing, one more sweep does what it did. -/
theorem Converges.again {s : SystemId} {i : Nat} {st st' : Session α} (h : Converges s constraints (i + 1) st)
    (hcoherent : Coherent made st.assembly)
    (htimeless : ∀ c ∈ constraints, (st.assembly.constraint c).Timeless)
    (hplaced : ∀ n, Placed (Act.swept constraints i st).assembly (Act.swept constraints (i + 1) st).assembly n)
    (hst' : Relaxed st.assembly st'.assembly)
    (hnode : st'.assembly.node = (Act.swept constraints (i + 1) st).assembly.node) :
    Converges s constraints 1 st' ∧ (Act.swept constraints 1 st').assembly.node = st'.assembly.node := by
  have hbefore := corrected_swept constraints i st
  have hclear (a : Assembly α) : Corrected (st.assembly.nodesOf constraints) a
      (a.clearBoosts (st.assembly.nodesOf constraints)) := Assembly.corrected_clearBoosts (List.Subset.refl _) a
  -- the last sweep and the next one begin in the same scene, as the last one has moved nothing
  have hscene : SameScene made constraints
      ((Act.swept constraints i st).assembly.clearBoosts (st.assembly.nodesOf constraints))
      (st'.assembly.clearBoosts (st.assembly.nodesOf constraints)) := {
    toSamePlan := hst'.toSamePlan.of_sameDesign (hbefore.toSameDesign.trans (hclear _).toSameDesign)
      (hclear _).toSameDesign
    node := h.clearBoosts_eq (Nat.lt_succ_self i) hplaced hnode
    coherent := hcoherent.relaxed (trans_of _ hbefore (hclear _)).relaxed
    coherent' := hcoherent.relaxed (trans_of _ hst' (hclear _).relaxed)
    timeless := fun c hc => by
      rw [(hclear _).constraint, hbefore.constraint]
      exact htimeless c hc }
  have hagree : Agree Eq (SameScene made constraints) (bareSweep constraints) (bareSweep constraints)
      (Act.swept constraints i st).assembly st'.assembly := by
    refine agree_bind (agree_change ?_) fun _ _ _ _ _ h =>
      blind_answersOf_sameScene (List.Subset.refl constraints) _ _ h
    rw [hbefore.samePlan.nodesOf, hst'.nodesOf]
    exact hscene
  obtain ⟨hmatch, hafter⟩ := hagree.at_session.at_session
  obtain ⟨answers, hanswer, hmet, -⟩ := h.sweeps (Nat.lt_succ_self i)
  have hdone : ((bareSweep constraints).after st').assembly.node = st'.assembly.node := by
    rw [hafter.node, after_bareSweep, hnode]
  refine ⟨converges_succ.mpr ?_, hdone⟩
  rw [hanswer] at hmatch
  cases hanswer' : (bareSweep constraints).answer st' with
  | error fault =>
    rw [hanswer'] at hmatch
    exact hmatch.elim
  | ok answers' =>
    rw [hanswer'] at hmatch
    obtain rfl : answers = answers' := hmatch
    refine ⟨answers, rfl, ?_, by rw [if_pos rfl]; exact hmet rfl⟩
    have hfinite := h.finite i (Nat.lt_succ_self i)
    unfold Assembly.isFinite at hfinite ⊢
    rwa [hdone, hnode, hafter.system, after_bareSweep]

/-- After a run that met every constraint, in a session that operations with references from factories lead to: if the
last sweep left every node in its place, as it does where no constraint has a wanted angle, then relaxing again takes
one sweep and leaves every node as it is. -/
theorem correct_again (ambient : Config α) (journal : Journal α) (ops : List (Operation α))
    (hgenuine : Genuine [] ops ⟨.empty ambient, journal⟩) (s : SystemId) (st : Session α)
    (hst : st = run ops ⟨.empty ambient, journal⟩)
    (htimeless : ∀ c ∈ (st.assembly.system s).constraints, (st.assembly.constraint c).Timeless) (k : Nat)
    (hk : 1 ≤ k) (hanswer : (correct s).answer st = .ok k)
    (hquiet : (∀ c ∈ (st.assembly.system s).constraints, (st.assembly.constraint c).angleTarget = none) ∨
      ∀ n, Placed (swept (st.assembly.system s).constraints (k - 1) st).assembly
        (swept (st.assembly.system s).constraints k st).assembly n) :
    (correct s).answer ((correct s).after st) = .ok 1 ∧
      ∀ n, ((correct s).after ((correct s).after st)).assembly.node n = ((correct s).after st).assembly.node n := by
  obtain ⟨i, rfl⟩ : ∃ i, k = i + 1 := ⟨k - 1, by omega⟩
  have hcoherent : Coherent (referencesOf (gathered Operation.makes ops ⟨.empty ambient, journal⟩)) st.assembly := by
    rw [hst]
    exact coherent_run_empty hgenuine
  obtain ⟨hfirst, hnodes⟩ := (runs_correct st s).at_session (i + 1) hk
  obtain ⟨hcap, hconverges⟩ := hfirst.mp hanswer
  have hplan := (relaxed_correct s st.assembly).at_session
  have hnode : ((correct s).after st).assembly.node =
      (swept (st.assembly.system s).constraints (i + 1) st).assembly.node := by
    unfold Assembly.node
    rw [hnodes hanswer]
  -- without wanted angles the last sweep moves nothing, and otherwise this is assumed
  obtain ⟨hagain, hsame⟩ := hconverges.again hcoherent htimeless (hquiet.elim hconverges.placed id) hplan hnode
  obtain ⟨hsecond, hnodes'⟩ := (runs_correct ((correct s).after st) s).at_session 1 (Nat.le_refl 1)
  have hconfig : ((correct s).after st).assembly.config = st.assembly.config := by
    unfold Assembly.config
    rw [hplan.configs]
  rw [hplan.system] at hsecond hnodes'
  have hanswer' := hsecond.mpr ⟨by rw [hconfig]; omega, hagain⟩
  refine ⟨hanswer', fun n => ?_⟩
  rw [← hsame]
  unfold Assembly.node
  rw [hnodes' hanswer']

/-- A bar of length ten, pinned at one end, that has to be half as long. -/
def pinnedBar : List (Operation Float) :=
  [.newSystem none, .node 0 0 0 { base := some true }, .node 0 10 0 {},
    .pair 0 0 1 { length := some (.number (.int 5)) }]

theorem correct_again_pinned :
    Genuine [] pinnedBar ⟨.empty .standard, .empty Level.warning⟩ ∧
      (correct 0).answer (run pinnedBar ⟨.empty .standard, .empty Level.warning⟩) = .ok 2 ∧
      (correct 0).answer ((correct 0).after (run pinnedBar ⟨.empty .standard, .empty Level.warning⟩)) = .ok 1 := by
  set st := run pinnedBar ⟨.empty .standard, .empty Level.warning⟩ with hst
  have hgenuine : Genuine [] pinnedBar ⟨.empty .standard, .empty Level.warning⟩ := by
    simp [pinnedBar, Genuine, Operation.makes, Operation.references, Spec.references]
  have hanswer : (correct 0).answer st = .ok 2 := eq_ok_of_toOption (by decide +kernel)
  have htimeless : ∀ c ∈ (st.assembly.system 0).constraints, (st.assembly.constraint c).Timeless := fun c hc t ht =>
    t.timeless_of_not_callable (by
      revert c t
      decide +kernel)
  have hfree : ∀ c ∈ (st.assembly.system 0).constraints, (st.assembly.constraint c).angleTarget.isNone := by
    decide +kernel
  exact ⟨hgenuine, hanswer, (correct_again .standard (.empty Level.warning) pinnedBar hgenuine 0 st hst htimeless 2
    (by decide) hanswer (Or.inl fun c hc => Option.isNone_iff_eq_none.mp (hfree c hc))).1⟩

/-- A bar that wants the length ten within one, and a level between its free end and a base node that takes the end out
of that. -/
noncomputable def slanted : List (Operation ℝ) :=
  [.newConfig ⟨.int 256, 1, 1000000⟩, .newSystem (some 0),
    .node 0 0 0 { base := some true, mass := some none }, .node 0 0 (43 / 4) { mass := some none },
    .node 0 10 (23 / 2) { base := some true, mass := some none },
    .pair 0 0 1 { length := some (.number (.float 10)) }, .pair 0 1 2 { angle := some (.number (.float 0)) }]

noncomputable def slantedSession : Session ℝ := run slanted ⟨.empty ⟨.int 256, 1, 1000000⟩, .empty Level.warning⟩

theorem slanted_length : lengthPass ⟨.int 256, 1, 1000000⟩ (10 : ℝ)
    ⟨⟨0, 0, true, 1, none, 0⟩, ⟨0, 43 / 4, false, 1, none, 0⟩⟩ =
      .ok true ⟨⟨0, 0, true, 1, none, 0⟩, ⟨0, 43 / 4, false, 1, none, 0⟩⟩ := by
  refine lengthPass_of_near ?_
  change |10 - (⟨0 - 0, 43 / 4 - 0⟩ : Vec ℝ).length| < 1
  rw [Vec.length_upright (by norm_num)]
  norm_num [abs_lt]

theorem slanted_angle : anglePass ⟨.int 256, 1, 1000000⟩ .either (0 : ℝ)
    ⟨⟨0, 43 / 4, false, 1, none, 0⟩, ⟨10, 23 / 2, true, 1, none, 0⟩⟩ =
      .ok true ⟨⟨0, 23 / 2, false, 1, none, 1⟩, ⟨10, 23 / 2, true, 1, none, 0⟩⟩ := by
  -- the vector is (10, 3/4), and the part across the level is taken off
  have hd : Direction.either.correction (⟨10 - 0, 23 / 2 - 43 / 4⟩ : Vec ℝ) ⟨Real.cos 0, Real.sin 0⟩ = ⟨0, 3 / 4⟩ := by
    unfold Direction.correction
    rw [Real.cos_zero, Real.sin_zero]
    norm_num
  have hshare : (⟨⟨0, 43 / 4, false, 1, none, 0⟩, ⟨10, 23 / 2, true, 1, none, 0⟩⟩ : Ends ℝ).shares = .ok (1, 0) := by
    have hfree : (⟨0, 43 / 4, false, 1, none, 0⟩ : Node ℝ).inverseMass = .ok 1 :=
      Scalar.divide_eq_ok.mpr (by norm_num [Node.effectiveMass])
    have hbase : (⟨10, 23 / 2, true, 1, none, 0⟩ : Node ℝ).inverseMass = .ok 0 := rfl
    have hfirst : Scalar.divide (1 : ℝ) (1 + 0) = .ok 1 := Scalar.divide_eq_ok.mpr (by norm_num)
    have hsecond : Scalar.divide (0 : ℝ) (1 + 0) = .ok 0 := Scalar.divide_eq_ok.mpr (by norm_num)
    have hsum : ¬Scalar.isZero (1 + 0 : ℝ) = true := by simp
    unfold Ends.shares
    rw [hfree, hbase]
    change shares 1 0 = _
    unfold shares
    dsimp only
    rw [if_neg hsum, hfirst, hsecond]
    rfl
  have hshift : (⟨⟨0, 43 / 4, false, 1, none, 0⟩, ⟨10, 23 / 2, true, 1, none, 0⟩⟩ : Ends ℝ).shift (1, 0) ⟨0, 3 / 4⟩ =
      ⟨⟨0, 23 / 2, false, 1, none, 0⟩, ⟨10, 23 / 2, true, 1, none, 0⟩⟩ := by
    simp only [Ends.shift, Node.moveTo]
    norm_num
  have hlength : (⟨10 - 0, 23 / 2 - 23 / 2⟩ : Vec ℝ).length ≤ 1000000 := Real.sqrt_le_iff.mpr (by norm_num)
  have hmet : (decide (|(0 : ℝ)| < 1) && decide (|(3 / 4 : ℝ)| < 1)) = true := by norm_num [abs_lt]
  have hboost : (⟨⟨0, 23 / 2, false, 1, none, 0⟩, ⟨10, 23 / 2, true, 1, none, 0⟩⟩ : Ends ℝ).addBoost =
      ⟨⟨0, 23 / 2, false, 1, none, 1⟩, ⟨10, 23 / 2, true, 1, none, 0⟩⟩ := by
    simp only [Ends.addBoost, Node.addBoost]
    norm_num
  refine (anglePass_of_near (Scalar.heading_real 0) hshare hd ?_).trans ?_
  · rw [hshift]
    exact not_lt.mpr hlength
  · rw [hshift, hboost]
    exact congrArg (EStateM.Result.ok · _) hmet

theorem slanted_sweep : Runs (bareSweep [0, 1]) slantedSession.assembly fun r b => r = .ok [true, true] ∧
    b.node 0 = ⟨0, 0, true, 1, none, 0⟩ ∧ b.node 1 = ⟨0, 23 / 2, false, 1, none, 1⟩ := by
  refine runs_after_change (runs_bind (Runs.mono (runs_correctOne_length rfl rfl rfl slanted_length) ?_))
  rintro _ b ⟨rfl, hb⟩
  have hleft : b.node 0 = ⟨0, 0, true, 1, none, 0⟩ := by rw [hb]; rfl
  have hjoint : b.node 1 = ⟨0, 43 / 4, false, 1, none, 0⟩ := by rw [hb]; rfl
  have hright : b.node 2 = ⟨10, 23 / 2, true, 1, none, 0⟩ := by rw [hb]; rfl
  have hlevel : b.constraint 1 = ⟨none, .pair 1 2 .either, some 0, [], none, some (.fixed 0)⟩ := by rw [hb]; rfl
  have hconfig : b.configOf 1 = ⟨.int 256, 1, 1000000⟩ := by rw [hb]; rfl
  rw [then_ok]
  refine runs_bind_pure (runs_bind (Runs.mono (runs_correctOne_angle (by rw [hlevel]) (by rw [hlevel]) (by rw [hlevel])
    (by rw [hconfig, hjoint, hright]; exact slanted_angle)) ?_))
  rintro _ _ ⟨rfl, rfl⟩
  rw [then_ok]
  refine runs_bind_pure (runs_pure ⟨rfl, ?_, ?_⟩)
  · rw [Assembly.node_setNode, Assembly.node_setNode, hleft]
    rfl
  · rw [Assembly.node_setNode, Assembly.node_setNode]
    rfl

theorem slanted_correct : (correct 0).answer slantedSession = .ok 1 ∧
    ((correct 0).after slantedSession).assembly.node 0 = ⟨0, 0, true, 1, none, 0⟩ ∧
    ((correct 0).after slantedSession).assembly.node 1 = ⟨0, 23 / 2, false, 1, none, 1⟩ := by
  obtain ⟨hanswer, hleft, hjoint⟩ := slanted_sweep.at_session
  have hconverges : Converges 0 [0, 1] 1 slantedSession :=
    converges_succ.mpr ⟨[true, true], hanswer, Assembly.isFinite_real _ 0, by simp⟩
  have hcap : 1 ≤ (slantedSession.assembly.config (slantedSession.assembly.system 0).config).cap := by decide
  obtain ⟨hcorrect, hnodes⟩ := (runs_correct slantedSession 0).at_session 1 (Nat.le_refl 1)
  have hanswer' := hcorrect.mpr ⟨hcap, hconverges⟩
  have hnode : ((correct 0).after slantedSession).assembly.node = (swept [0, 1] 1 slantedSession).assembly.node := by
    unfold Assembly.node
    rw [hnodes hanswer']
    rfl
  rw [hnode]
  exact ⟨hanswer', hleft, hjoint⟩

/-- Relaxed again, a system that was within its tolerances is not: the level was kept at the cost of the bar. -/
theorem lost_again : (slantedSession.assembly.config (slantedSession.assembly.system 0).config).Valid ∧
    (correct 0).answer slantedSession = .ok 1 ∧
    (correct 0).answer ((correct 0).after slantedSession) ≠ .ok 1 := by
  obtain ⟨hanswer, hleft, hjoint⟩ := slanted_correct
  have hvalid : (⟨.int 256, 1, 1000000⟩ : Config ℝ).Valid := ⟨by decide, zero_lt_one, by norm_num⟩
  refine ⟨hvalid, hanswer, fun hagain => ?_⟩
  have hplan := (relaxed_correct 0 slantedSession.assembly).at_session
  have hconverges := ((((runs_correct ((correct 0).after slantedSession) 0).at_session 1 (Nat.le_refl 1)).1).mp
    hagain).2
  rw [hplan.system] at hconverges
  change Converges 0 [0, 1] 1 _ at hconverges
  obtain ⟨answers, -, hmet, hsweeps⟩ := hconverges.sweeps Nat.zero_lt_one
  cases hsweeps with
  | cons first later =>
    obtain ⟨rfl, -⟩ := List.forall_mem_cons.mp (hmet rfl)
    -- a bar that is met stays as it is, and this one is too long
    have hnear := first.near (hplan.shape 0) (hplan.lengthTarget 0)
    rw [first.node_eq (hplan.angleTarget 0), hplan.configOf,
      Assembly.vectorTo_of_placed (Assembly.placed_clearBoosts ..) (Assembly.placed_clearBoosts ..)] at hnear
    change |10 - ((((correct 0).after slantedSession).assembly.node 0).vectorTo
      (((correct 0).after slantedSession).assembly.node 1)).length| < 1 at hnear
    rw [hleft, hjoint] at hnear
    change |10 - (⟨0 - 0, 23 / 2 - 0⟩ : Vec ℝ).length| < 1 at hnear
    rw [Vec.length_upright (by norm_num)] at hnear
    norm_num [abs_lt] at hnear

end Act

end Linkage
