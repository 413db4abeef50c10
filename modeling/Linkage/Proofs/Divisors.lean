import Linkage.Proofs.Failures
import Linkage.Proofs.Sparing

/-!
# Linkage.Proofs.Divisors — no divisor of a relaxation is zero

A correction divides by effective masses, by sums of inverse masses and by lengths.  Lengths are asked for before they
divide, and sums of inverse masses too, but nothing asks for an effective mass: it is positive because every sweep clears
the boosts of all nodes of its constraints before it reads the first one, and boosts only grow until the next sweep
(`Firm`).  Whatever boosts a run starts with, it fails only where reading a target does (`correct_divides`), and whenever
a constraint is corrected the parts that its nodes take are parts of a whole (`Apportions`).
-/

namespace Linkage

/-- The laws of signs hold of real numbers. -/
instance : Scalar.Signs ℝ where
  zero_le_zero := le_refl _
  one_pos := zero_lt_one
  epsilon_pos := inv_pos.mpr (Nat.cast_pos.mpr (by positivity))
  rootEpsilon_pos := inv_pos.mpr (Nat.cast_pos.mpr (by positivity))
  le_of_pos h := le_of_lt h
  add_pos {a b} ha hb h := by
    rcases h with h | h
    · exact add_pos_of_pos_of_nonneg h hb
    · exact add_pos_of_nonneg_of_pos ha h
  not_isZero_of_pos {a} h := by
    rw [Bool.eq_false_iff, ne_eq, Scalar.isZero_real]
    exact ne_of_gt h
  not_isZero_of_lt {a b} ha hab := by
    rw [Bool.eq_false_iff, ne_eq, Scalar.isZero_real]
    exact ne_of_gt (lt_trans ha hab)
  not_isZero_of_not_le {a b} ha hba := by
    rw [Bool.eq_false_iff, ne_eq, Scalar.isZero_real]
    exact ne_of_gt (lt_trans ha (not_le.mp hba))

/-- In exact arithmetic a sound node is a heavy one. -/
theorem Node.Sound.heavy {n : Node ℝ} (h : n.Sound) : n.Heavy := h

namespace Assembly

/-- The constraints of a list have a positive reach, and each of their nodes is a base node or has a positive mass. -/
structure Massive (cs : List ConstraintId) (a : Assembly ℝ) : Prop where
  reach : ∀ c ∈ cs, 0 < (a.configOf c).reach
  massive : ∀ n ∈ a.nodesOf cs, (a.node n).base = true ∨ 0 < (a.node n).mass

/-- What is more, no boost of theirs is negative. -/
structure Firm (cs : List ConstraintId) (a : Assembly ℝ) : Prop where
  reach : ∀ c ∈ cs, 0 < (a.configOf c).reach
  sound : ∀ n ∈ a.nodesOf cs, (a.node n).Sound

variable {cs : List ConstraintId} {a b : Assembly ℝ} {c : ConstraintId}

theorem Firm.massive (h : Firm cs a) : Massive cs a :=
  ⟨h.reach, fun n hn => (h.sound n hn).imp_right And.left⟩

theorem Firm.node (h : Firm cs a) (hc : c ∈ cs) {n : NodeId} (hn : n ∈ (a.constraint c).shape.nodes) :
    (a.node n).Sound := h.sound n (List.mem_flatMap.mpr ⟨c, hc, hn⟩)

theorem Massive.worked (h : Massive cs a) (hplan : SamePlan a b) (hworked : ∀ n, (a.node n).Worked (b.node n)) :
    Massive cs b where
  reach c hc := by
    rw [hplan.configOf]
    exact h.reach c hc
  massive n hn := by
    obtain ⟨hmass, hbase, -⟩ := (hworked n).body
    rw [hmass, hbase]
    exact h.massive n (by rwa [hplan.nodesOf] at hn)

theorem Firm.tended (h : Firm cs a) (hab : Tended cs a b) : Firm cs b where
  reach c hc := by
    rw [hab.samePlan.configOf]
    exact h.reach c hc
  sound n hn := (hab.handled n).worked.sound (h.sound n (by rwa [hab.samePlan.nodesOf] at hn))

/-- Once the boosts of all their nodes are cleared, massive constraints are firm. -/
theorem Massive.firm (h : Massive cs a) (hplan : SamePlan a b)
    (hclear : ∀ n ∈ a.nodesOf cs, b.node n = (a.node n).clearBoost) : Firm cs b where
  reach c hc := by
    rw [hplan.configOf]
    exact h.reach c hc
  sound n hn := by
    rw [hplan.nodesOf] at hn
    rw [hclear n hn]
    unfold Node.clearBoost
    split
    case isTrue hbase => exact Or.inl hbase
    case isFalse hfree => exact Or.inr ⟨(h.massive n hn).resolve_left hfree, le_refl _⟩

theorem Massive.firm_clearBoosts (h : Massive cs a) : Firm cs (a.clearBoosts (a.nodesOf cs)) :=
  h.firm (corrected_clearBoosts (List.Subset.refl _) a).samePlan fun n hn => by rw [node_clearBoosts, if_pos hn]

/-- The constraints of a system with a valid configuration are massive if its nodes are. -/
theorem Consistent.massive {s : SystemId} (h : Consistent a) (hvalid : (a.config (a.system s).config).Valid)
    (hmass : ∀ n ∈ (a.system s).nodes, (a.node n).base = false → 0 < (a.node n).mass) :
    Massive (a.system s).constraints a where
  reach c hc := by
    rw [h.configOf hc]
    exact hvalid.2.2
  massive n hn := by
    obtain ⟨c, hc, hn⟩ := List.mem_flatMap.mp hn
    have hlisted : n ∈ (a.system s).nodes := h.listed s c hc hn
    cases hbase : (a.node n).base with
    | true => exact Or.inl rfl
    | false => exact Or.inr (hmass n hlisted hbase)

end Assembly

namespace Act

open Assembly (Alike Firm Massive SameDesign SamePlan Tended)

variable {cs : List ConstraintId} {st : Session ℝ} {c : ConstraintId}

/-! ### Corrections -/

theorem answer_meet_of_succeeds {first second : NodeId} {pass : ℝ → Pass ℝ (Ends ℝ) Bool}
    (h : ∀ target, (pass target).Succeeds ⟨st.assembly.node first, st.assembly.node second⟩) (target? : Option ℝ) :
    ∃ met, (meet (fun target => onEnds first second (pass target)) target?).answer st = .ok met := by
  cases target? with
  | none => exact ⟨true, rfl⟩
  | some target => exact (runs_onEnds_of_succeeds (h target)).at_session

/-- Turning a pair fails only where its wanted angle cannot be read. -/
theorem answer_turnOne (hfirm : st.assembly.Firm cs) (hc : c ∈ cs) : (∃ met, (turnOne c).answer st = .ok met) ∨
    ∃ fault, (turnOne c).answer st = .error fault ∧ (targetAngle c).answer st = .error fault := by
  cases hshape : (st.assembly.constraint c).shape with
  | triple apex ray arm =>
    left
    refine ⟨true, ?_⟩
    unfold answer turnOne
    rw [read_at, hshape]
    rfl
  | pair first second direction =>
    have hfirst : (st.assembly.node first).Sound := hfirm.node hc (by simp [hshape, Shape.nodes])
    have hsecond : (st.assembly.node second).Sound := hfirm.node hc (by simp [hshape, Shape.nodes])
    -- reading the angle moves no node, so that the shares are those of sound ends and can be computed
    obtain ⟨⟨-, hnode⟩, -⟩ := (runs_targetAngle_as st.assembly c).at_session
    rw [answer_congr (turnOne_of_pair hshape)]
    cases hread : (targetAngle c).answer st with
    | error fault => exact Or.inr ⟨fault, answer_bind_error hread, rfl⟩
    | ok angle? =>
      rw [answer_bind_ok hread]
      refine Or.inl (answer_meet_of_succeeds (fun target => ?_) angle?)
      rw [hnode]
      exact anglePass_succeeds (hfirm.reach c hc) hfirst hsecond rfl

/-- Stretching a pair fails only where its wanted length cannot be read. -/
theorem answer_stretchOne (hfirm : st.assembly.Firm cs) (hc : c ∈ cs) : (∃ met, (stretchOne c).answer st = .ok met) ∨
    ∃ fault, (stretchOne c).answer st = .error fault ∧ (targetLength c).answer st = .error fault := by
  cases hshape : (st.assembly.constraint c).shape with
  | triple apex ray arm =>
    left
    refine ⟨true, ?_⟩
    unfold answer stretchOne
    rw [read_at, hshape]
    rfl
  | pair first second direction =>
    have hfirst : (st.assembly.node first).Sound := hfirm.node hc (by simp [hshape, Shape.nodes])
    have hsecond : (st.assembly.node second).Sound := hfirm.node hc (by simp [hshape, Shape.nodes])
    obtain ⟨⟨-, hnode⟩, -⟩ := (runs_targetLength_as st.assembly c).at_session
    rw [answer_congr (stretchOne_of_pair hshape)]
    cases hread : (targetLength c).answer st with
    | error fault => exact Or.inr ⟨fault, answer_bind_error hread, rfl⟩
    | ok length? =>
      rw [answer_bind_ok hread]
      refine Or.inl (answer_meet_of_succeeds (fun target => ?_) length?)
      rw [hnode]
      exact lengthPass_succeeds hfirst hsecond

/-- Swinging a triple fails only where its wanted angle cannot be read. -/
theorem answer_correctOne_triple (hfirm : st.assembly.Firm cs) (hc : c ∈ cs) {apex ray arm : NodeId}
    (hshape : (st.assembly.constraint c).shape = .triple apex ray arm) : (∃ met, (correctOne c).answer st = .ok met) ∨
    ∃ fault, (correctOne c).answer st = .error fault ∧ (targetAngle c).answer st = .error fault := by
  have hapex : (st.assembly.node apex).Sound := hfirm.node hc (by simp [hshape, Shape.nodes])
  have harm : (st.assembly.node arm).Sound := hfirm.node hc (by simp [hshape, Shape.nodes])
  cases htarget : (st.assembly.constraint c).angleTarget with
  | none =>
    refine Or.inl ⟨true, ?_⟩
    unfold answer correctOne
    rw [read_at, hshape]
    dsimp only
    rw [htarget]
    rfl
  | some t =>
    -- the correction and the reading are both written out as far as the same evaluation
    have hcorrect : (correctOne c).answer st =
        (if (⟨st.assembly.node apex, st.assembly.node ray, st.assembly.node arm⟩ : Corner ℝ).isFlat then pure true
        else evaluate c t >>= fun target => onCorner apex ray arm (rayPass (st.assembly.configOf c) target) :
          Act ℝ Bool).answer st := by
      unfold answer correctOne
      rw [read_at, hshape]
      dsimp only
      rw [htarget]
    have hread : (targetAngle c).answer st = (evaluate c t >>= fun target => pure (some target)).answer st := by
      unfold answer targetAngle
      rw [read_at, htarget]
    rw [hcorrect, hread]
    split
    case isTrue => exact Or.inl ⟨true, rfl⟩
    case isFalse hlong =>
      cases hvalue : (evaluate c t).answer st with
      | error fault => exact Or.inr ⟨fault, answer_bind_error hvalue, answer_bind_error hvalue⟩
      | ok target =>
        left
        rw [answer_bind_ok hvalue]
        obtain ⟨met, corner, hran⟩ : (rayPass (st.assembly.configOf c) target).Succeeds
            ⟨st.assembly.node apex, st.assembly.node ray, st.assembly.node arm⟩ :=
          rayPass_succeeds hlong hapex harm rfl
        have hnode := ((runs_evaluate st.assembly c t).at_session).1.node
        refine ⟨met, Runs.at_session (Q := fun r _ => r = .ok met) (runs_read ?_)⟩
        rw [hnode, hnode, hnode, hran]
        exact runs_after_change (runs_pure rfl)

/-- Correcting a constraint fails only where its wanted angle cannot be read, or its wanted length once it is turned. -/
theorem answer_correctOne (hfirm : st.assembly.Firm cs) (hc : c ∈ cs) : (∃ met, (correctOne c).answer st = .ok met) ∨
    ∃ fault, (correctOne c).answer st = .error fault ∧
      ((targetAngle c).answer st = .error fault ∨ (targetLength c).answer ((turnOne c).after st) = .error fault) := by
  cases hshape : (st.assembly.constraint c).shape with
  | triple apex ray arm =>
    exact (answer_correctOne_triple hfirm hc hshape).imp_right fun ⟨fault, h, hread⟩ => ⟨fault, h, Or.inl hread⟩
  | pair first second direction =>
    rw [answer_congr (correctOne_of_pair hshape)]
    obtain ⟨angleMet, hturn⟩ | ⟨fault, hturn, hread⟩ := answer_turnOne hfirm hc
    · have hfirm' := hfirm.tended (keeps_turnOne hc st.assembly).at_session
      rw [answer_bind_ok hturn]
      obtain ⟨lengthMet, hstretch⟩ | ⟨fault, hstretch, hread⟩ := answer_stretchOne hfirm' hc
      · rw [answer_bind_ok hstretch]
        exact Or.inl ⟨_, rfl⟩
      · exact Or.inr ⟨fault, answer_bind_error hstretch, Or.inr hread⟩
    · exact Or.inr ⟨fault, answer_bind_error hturn, Or.inl hread⟩

/-! ### Sweeps -/

/-- The session in which a sweep has cleared all boosts and corrected the constraints of `before`. -/
def midsweep {α : Type} [Scalar α] (cs before : List ConstraintId) (st : Session α) : Session α :=
  (answersOf before).after ((change fun a => a.clearBoosts (a.nodesOf cs)).after st)

/-- In some sweep, the wanted angle of a constraint cannot be read when it is to be corrected, or its wanted length once
it is turned. -/
def FailsToRead (cs : List ConstraintId) (st : Session ℝ) (fault : Fault ℝ) : Prop :=
  ∃ (sweeps : Nat) (before after : List ConstraintId) (c : ConstraintId), cs = before ++ c :: after ∧
    ((targetAngle c).answer (midsweep cs before (swept cs sweeps st)) = .error fault ∨
      (targetLength c).answer ((turnOne c).after (midsweep cs before (swept cs sweeps st))) = .error fault)

theorem keeps_answersOf {before : List ConstraintId} (h : before ⊆ cs) : Keeps (Tended cs) (answersOf before) := by
  induction before with
  | nil => exact keeps_pure []
  | cons c rest ih =>
    obtain ⟨hc, hrest⟩ := List.cons_subset.mp h
    exact (keeps_correctOne hc).bind fun met => (ih hrest).bind fun answers => keeps_pure _

/-- Constraints that are corrected one after the other fail where one of them does. -/
theorem answer_answersOf {rest : List ConstraintId} (hfirm : st.assembly.Firm cs) (hrest : rest ⊆ cs)
    {fault : Fault ℝ} (hfault : (answersOf rest).answer st = .error fault) :
    ∃ before c after, rest = before ++ c :: after ∧
      ((targetAngle c).answer ((answersOf before).after st) = .error fault ∨
        (targetLength c).answer ((turnOne c).after ((answersOf before).after st)) = .error fault) := by
  induction rest generalizing st with
  | nil => exact nomatch hfault
  | cons c rest ih =>
    obtain ⟨hc, hrest⟩ := List.cons_subset.mp hrest
    obtain ⟨met, hmet⟩ | ⟨fault', hfirst, hread⟩ := answer_correctOne hfirm hc
    · -- the first one has been corrected, and the failure is in the others
      have hfirm' := hfirm.tended (keeps_correctOne hc st.assembly).at_session
      have hlater : (answersOf rest).answer ((correctOne c).after st) = .error fault := by
        have hall : (answersOf (c :: rest)).answer st = _ := (answer_bind_ok hmet).trans answer_bind_pure
        rw [hfault] at hall
        cases hanswers : (answersOf rest).answer ((correctOne c).after st) with
        | error e => rw [hanswers] at hall; cases hall; rfl
        | ok answers => rw [hanswers] at hall; exact nomatch hall
      obtain ⟨before, d, after, rfl, hread⟩ := ih hfirm' hrest hlater
      have hbefore : (answersOf (c :: before)).after st = (answersOf before).after ((correctOne c).after st) :=
        (after_bind_ok hmet).trans after_bind_pure
      exact ⟨c :: before, d, after, rfl, by rwa [hbefore]⟩
    · have hfault' : (answersOf (c :: rest)).answer st = .error fault' := answer_bind_error hfirst
      cases hfault'.symm.trans hfault
      exact ⟨[], c, rest, rfl, hread⟩

theorem firm_midsweep {st : Session ℝ} {before : List ConstraintId} (h : st.assembly.Massive cs) (hbefore : before ⊆ cs) :
    (midsweep cs before st).assembly.Firm cs :=
  h.firm_clearBoosts.tended
    (keeps_answersOf hbefore ((change fun a => a.clearBoosts (a.nodesOf cs)).after st).assembly).at_session

/-- A sweep is the part of it that corrects all of the constraints. -/
theorem after_bareSweep_eq_midsweep {α : Type} [Scalar α] (cs : List ConstraintId) (st : Session α) :
    (bareSweep cs).after st = midsweep cs cs st := rfl

/-- What is corrected within a sweep has the design that it had before the sweeps. -/
theorem sameDesign_midsweep (st : Session ℝ) {before : List ConstraintId} (hbefore : before ⊆ cs) (sweeps : Nat) :
    SameDesign st.assembly (midsweep cs before (swept cs sweeps st)).assembly := by
  have hcleared : SameDesign (swept cs sweeps st).assembly
      ((change fun a => a.clearBoosts (a.nodesOf cs)).after (swept cs sweeps st)).assembly :=
    (Assembly.corrected_clearBoosts (List.Subset.refl _) _).toSameDesign
  exact (corrected_swept cs sweeps st).toSameDesign.trans
    (hcleared.trans (keeps_answersOf hbefore _).at_session.toSameDesign)

theorem worked_midsweep (st : Session ℝ) {before : List ConstraintId} (hbefore : before ⊆ cs) (n : NodeId) :
    (st.assembly.node n).Worked ((midsweep cs before st).assembly.node n) := by
  have hcleared : (st.assembly.node n).Worked
      (((change fun a => a.clearBoosts (a.nodesOf cs)).after st).assembly.node n) :=
    Assembly.worked_clearBoosts st.assembly _ n
  exact hcleared.trans ((keeps_answersOf hbefore _).at_session.handled n).worked

/-- Sweeps only work on nodes, whether they fail or not. -/
theorem worked_swept (cs : List ConstraintId) (sweeps : Nat) (st : Session ℝ) (n : NodeId) :
    (st.assembly.node n).Worked ((swept cs sweeps st).assembly.node n) := by
  induction sweeps with
  | zero => exact .start
  | succ i ih =>
    rw [← after_bareSweep, after_bareSweep_eq_midsweep]
    exact ih.trans (worked_midsweep _ (List.Subset.refl cs) n)

theorem massive_swept {st : Session ℝ} (h : st.assembly.Massive cs) (sweeps : Nat) :
    (swept cs sweeps st).assembly.Massive cs :=
  h.worked (corrected_swept cs sweeps st).samePlan (worked_swept cs sweeps st)

/-- A sweep of massive constraints fails only where a target does. -/
theorem failsToRead_of_bareSweep (h : st.assembly.Massive cs) {i : Nat} {fault : Fault ℝ}
    (hfault : (bareSweep cs).answer (swept cs i st) = .error fault) : FailsToRead cs st fault := by
  have hfirm := (massive_swept h i).firm_clearBoosts
  have hanswers : (answersOf cs).answer ((change fun a => a.clearBoosts (a.nodesOf cs)).after (swept cs i st)) =
      .error fault := hfault
  obtain ⟨before, c, after, hsplit, hread⟩ := answer_answersOf hfirm (List.Subset.refl cs) hanswers
  exact ⟨i, before, after, c, hsplit, hread⟩

/-- Targets that have one value each can be read in every sweep. -/
theorem not_failsToRead (h : ∀ c ∈ cs, ∀ t ∈ (st.assembly.constraint c).targets, ∃ x, t.Constant x)
    (fault : Fault ℝ) : ¬FailsToRead cs st fault := by
  -- a target with one value is read everywhere that the plan is the same
  have hread (c : ConstraintId) (hc : c ∈ cs) (mid : Session ℝ) (hplan : SamePlan st.assembly mid.assembly) :
      (∃ angle?, (targetAngle c).answer mid = .ok angle?) ∧ ∃ length?, (targetLength c).answer mid = .ok length? := by
    have hconstant : ∀ t ∈ (mid.assembly.constraint c).targets, ∃ x, t.Constant x := by
      rw [hplan.targets]
      exact h c hc
    have hangle : Runs (targetAngle c) mid.assembly fun r _ => ∃ angle?, r = .ok angle? :=
      runs_read ((runs_optional_answering c fun t ht => answers_of_constant
        (hconstant t (List.mem_append_right _ ht))).mono fun _ _ h => h.2.imp fun _ h => h.1)
    have hlength : Runs (targetLength c) mid.assembly fun r _ => ∃ length?, r = .ok length? :=
      runs_read ((runs_optional_answering c fun t ht => answers_of_constant
        (hconstant t (List.mem_append_left _ ht))).mono fun _ _ h => h.2.imp fun _ h => h.1)
    exact ⟨hangle.at_session, hlength.at_session⟩
  -- and the plan in the middle of a sweep, or of a correction, is the one from the start
  rintro ⟨sweeps, before, after, c, rfl, hfails⟩
  have hc : c ∈ before ++ c :: after := by simp
  have hplan := (sameDesign_midsweep st (List.subset_append_left before (c :: after)) sweeps).samePlan
  rcases hfails with hfails | hfails
  · obtain ⟨angle?, hangle⟩ := (hread c hc _ hplan).1
    exact nomatch hangle.symm.trans hfails
  · obtain ⟨length?, hlength⟩ := (hread c hc _ (hplan.trans (keeps_turnOne hc _).at_session.samePlan)).2
    exact nomatch hlength.symm.trans hfails

/-- The loop fails where one of the sweeps does. -/
theorem runs_sweepsFrom_error (s : SystemId) (cs : List ConstraintId) (left done : Nat) (st : Session ℝ)
    {b : Assembly ℝ} (hst : Alike st.assembly b) : Runs (sweepsFrom s cs left done) b fun r _ =>
      ∀ fault, r = .error fault → ∃ i, (bareSweep cs).answer (swept cs i st) = .error fault := by
  -- by induction on the sweeps left: the loop runs beside bare sweeps, so that a fault of it is a fault of one of these
  induction left generalizing done st b with
  | zero => exact runs_pure fun fault h => nomatch h
  | succ left ih =>
    refine runs_bind ((agree_sweep (done == 0) cs hst).at_session.mono fun r b' ⟨hmatch, hab⟩ => ?_)
    cases r with
    | error e =>
      rintro fault ⟨⟩
      refine ⟨0, ?_⟩
      cases hanswer : (bareSweep cs).answer st with
      | ok answers => rw [hanswer] at hmatch; exact hmatch.elim
      | error e' => rw [hanswer] at hmatch; cases hmatch; exact hanswer
    | ok met =>
      rw [then_ok]
      refine runs_read ?_
      split
      · exact runs_after_report (runs_pure fun fault h => nomatch h)
      · split
        · exact runs_pure fun fault h => nomatch h
        · refine (ih (done + 1) _ hab).mono fun r _ hr fault hfault => ?_
          obtain ⟨i, hi⟩ := hr fault hfault
          exact ⟨i + 1, by rw [swept_succ]; exact hi⟩

theorem runs_correct_error (st : Session ℝ) (s : SystemId) : Runs (correct s) st.assembly fun r _ =>
    (∃ k, r = .ok k) ∨ ∃ fault i, r = .error fault ∧
      (bareSweep (st.assembly.system s).constraints).answer (swept (st.assembly.system s).constraints i st) =
        .error fault := by
  refine runs_traced (runs_read (runs_bind (runs_outcome ((runs_sweepsFrom_error s _ _ 0 st (.refl _)).mono ?_))))
  intro r b hr
  rw [then_ok]
  cases r with
  | error fault =>
    obtain ⟨i, hi⟩ := hr fault rfl
    exact runs_after_rollback (runs_throw (Or.inr ⟨fault, i, rfl, hi⟩))
  | ok verdict =>
    cases verdict with
    | unmet done => exact runs_after_rollback (runs_after_report (runs_pure (Or.inl ⟨_, rfl⟩)))
    | met done => exact runs_after_report (runs_pure (Or.inl ⟨_, rfl⟩))

/-- A sweep of one constraint clears the boosts of its nodes and corrects it. -/
theorem runs_bareSweep_lone {a : Assembly ℝ} {met : Bool} {Q : Assembly ℝ → Prop}
    (h : Runs (correctOne c) (a.clearBoosts (a.nodesOf [c])) fun r b => r = .ok met ∧ Q b) :
    Runs (bareSweep [c]) a fun r b => r = .ok [met] ∧ Q b := by
  refine runs_after_change (runs_bind (h.mono ?_))
  rintro _ b ⟨rfl, hb⟩
  rw [then_ok]
  exact runs_bind_pure (runs_pure ⟨rfl, hb⟩)

/-- Sweeps of one constraint converge at the first one that meets it. -/
theorem converges_lone {st : Session ℝ} {s : SystemId} {met : ℕ → Bool}
    (hsweeps : ∀ i, (bareSweep [c]).answer (swept [c] i st) = .ok [met i]) {k : ℕ} (hk : 1 ≤ k) :
    Converges s [c] k st ↔ IsLeast {n | 1 ≤ n ∧ met (n - 1) = true} k := by
  constructor
  · intro h
    refine ⟨⟨hk, ?_⟩, fun n hn => ?_⟩
    · obtain ⟨answers, hanswer, -, hmet⟩ := h.swept (k - 1) (by omega)
      cases hanswer.symm.trans (hsweeps (k - 1))
      exact hmet (by omega) _ (List.mem_singleton_self _)
    · obtain ⟨hpos, hn⟩ := hn
      by_contra hlt
      obtain ⟨answers, hanswer, hunmet, -⟩ := h.swept (n - 1) (by omega)
      cases hanswer.symm.trans (hsweeps (n - 1))
      have hfalse := List.mem_singleton.mp (hunmet (by omega))
      exact absurd (hfalse.trans hn) (by decide)
  · rintro ⟨⟨-, hmet⟩, hleast⟩
    refine ⟨hk, fun i hi => ⟨_, hsweeps i, fun hik => ?_, fun hik => ?_⟩, fun i _ => Assembly.isFinite_real _ s⟩
    · rw [List.mem_singleton]
      by_contra hunmet
      have := hleast (show i + 1 ∈ {n | 1 ≤ n ∧ met (n - 1) = true} from
        ⟨by omega, (Bool.not_eq_false _).mp (Ne.symm hunmet)⟩)
      omega
    · intro met' hmet'
      rw [List.mem_singleton.mp hmet', ← hmet, ← hik, Nat.add_sub_cancel]

/-- So a run of a system with one constraint, each sweep of which answers, counts the sweeps up to the first one that meets
it, and answers zero if there is none within the cap. -/
theorem correct_lone {st : Session ℝ} {s : SystemId} (hone : (st.assembly.system s).constraints = [c]) {met : ℕ → Bool}
    (hsweeps : ∀ i, (bareSweep [c]).answer (swept [c] i st) = .ok [met i]) :
    (∀ k, 1 ≤ k → ((correct s).answer st = .ok k ↔
      k ≤ (st.assembly.config (st.assembly.system s).config).cap ∧
        IsLeast {n | 1 ≤ n ∧ met (n - 1) = true} k)) ∧
    ((∀ k, 1 ≤ k → k ≤ (st.assembly.config (st.assembly.system s).config).cap → met (k - 1) = false) →
      (correct s).answer st = .ok 0) := by
  have hcounted (k : ℕ) (hk : 1 ≤ k) : (correct s).answer st = .ok k ↔
      k ≤ (st.assembly.config (st.assembly.system s).config).cap ∧ IsLeast {n | 1 ≤ n ∧ met (n - 1) = true} k := by
    rw [((runs_correct st s).at_session k hk).1, hone, converges_lone hsweeps hk]
  refine ⟨hcounted, fun hnever => ?_⟩
  rcases (runs_correct_error st s).at_session with ⟨k, hanswer⟩ | ⟨fault, i, -, hfault⟩
  · rcases Nat.eq_zero_or_pos k with rfl | hk
    · exact hanswer
    · obtain ⟨hcap, ⟨-, hmet⟩, -⟩ := (hcounted k hk).mp hanswer
      exact absurd ((hnever k hk hcap).symm.trans hmet) (by decide)
  · rw [hone] at hfault
    exact nomatch (hsweeps i).symm.trans hfault

/-! ### Shares within a sweep -/

/-- The parts that the nodes of the constraint take in a correction: none is negative, and those of a pair make up the
whole or are both zero. -/
structure Apportions (c : ConstraintId) (st : Session ℝ) : Prop where
  pair : ∀ first second direction, (st.assembly.constraint c).shape = .pair first second direction →
    ∃ share, (sharesOf c).answer st = .ok share ∧ (0 ≤ share.1 ∧ share.1 ≤ 1) ∧ (0 ≤ share.2 ∧ share.2 ≤ 1) ∧
      (share.1 + share.2 = 1 ∨ share.1 = 0 ∧ share.2 = 0)
  triple : ∀ apex ray arm, (st.assembly.constraint c).shape = .triple apex ray arm →
    ∃ share, (⟨st.assembly.node apex, st.assembly.node ray, st.assembly.node arm⟩ : Corner ℝ).armShare = .ok share ∧
      0 ≤ share ∧ share ≤ 1

theorem apportions_of_firm {st : Session ℝ} (h : st.assembly.Firm cs) (hc : c ∈ cs) : Apportions c st where
  pair first second direction hshape := by
    have hfirst : (st.assembly.node first).Sound := h.node hc (by simp [hshape, Shape.nodes])
    have hsecond : (st.assembly.node second).Sound := h.node hc (by simp [hshape, Shape.nodes])
    obtain ⟨share, hshare⟩ := Ends.exists_shares (e := ⟨_, _⟩) hfirst hsecond
    have hanswer : Runs (sharesOf c) st.assembly fun r _ => r = .ok share := by
      refine runs_read ?_
      rw [hshape]
      exact runs_ofExcept hshare
    have hfair : Fair share := Ends.fair hfirst.heavy hsecond.heavy hshare
    have hfirst := hfair.first
    have hsecond := hfair.second
    have hsum := hfair.sum_le_one
    refine ⟨share, hanswer.at_session, ⟨hfirst, by linarith⟩, ⟨hsecond, by linarith⟩, hfair.sum.imp_right fun hzero => ?_⟩
    exact ⟨by linarith, by linarith⟩
  triple apex ray arm hshape := by
    have hapex : (st.assembly.node apex).Sound := h.node hc (by simp [hshape, Shape.nodes])
    have harm : (st.assembly.node arm).Sound := h.node hc (by simp [hshape, Shape.nodes])
    obtain ⟨share, hshare⟩ := Corner.exists_armShare (k := ⟨_, st.assembly.node ray, _⟩) hapex harm
    exact ⟨share, hshare, Corner.fair hapex.heavy harm.heavy hshare⟩

/-- With a valid configuration and a positive mass for every node that is no base node, whatever boosts there are: a run
in exact arithmetic divides by zero nowhere, since it ends with a number or fails because a target does; and in every
sweep the parts that nodes take are parts of a whole when their constraint is corrected, and again between its angle and
its length. -/
theorem correct_divides (st : Session ℝ) (hst : st.assembly.Consistent) (s : SystemId) (cs : List ConstraintId)
    (hcs : cs = (st.assembly.system s).constraints)
    (hvalid : (st.assembly.config (st.assembly.system s).config).Valid)
    (hmass : ∀ n ∈ (st.assembly.system s).nodes, (st.assembly.node n).base = false → 0 < (st.assembly.node n).mass) :
    ((∃ k, (correct s).answer st = .ok k) ∨
      ∃ fault, (correct s).answer st = .error fault ∧ FailsToRead cs st fault) ∧
    ∀ (sweeps : Nat) (before after : List ConstraintId) (c : ConstraintId), cs = before ++ c :: after →
      Apportions c (midsweep cs before (swept cs sweeps st)) ∧
        Apportions c ((turnOne c).after (midsweep cs before (swept cs sweeps st))) := by
  subst hcs
  have hmassive := hst.massive hvalid hmass
  have hends : (∃ k, (correct s).answer st = .ok k) ∨ ∃ fault, (correct s).answer st = .error fault ∧
      FailsToRead (st.assembly.system s).constraints st fault :=
    (runs_correct_error st s).at_session.imp_right fun ⟨fault, i, hfault, hi⟩ =>
      ⟨fault, hfault, failsToRead_of_bareSweep hmassive hi⟩
  refine ⟨hends, fun sweeps before after c hsplit => ?_⟩
  have hc : c ∈ (st.assembly.system s).constraints := by simp [hsplit]
  have hbefore : before ⊆ (st.assembly.system s).constraints := by simp [hsplit]
  -- the constraint has sound nodes in the middle of every sweep, and still has them after it was turned
  have hfirm := firm_midsweep (massive_swept hmassive sweeps) hbefore
  exact ⟨apportions_of_firm hfirm hc, apportions_of_firm (hfirm.tended (keeps_turnOne hc _).at_session) hc⟩

/-- A bar with an end that weighs nothing, because its boost takes away its mass. -/
noncomputable def hollowBar : Session ℝ :=
  run [.newConfig ⟨.int 1, 1, 1⟩, .newSystem (some 0), .node 0 0 0 { base := some true, mass := some none },
    .node 0 1 0 { mass := some none }, .modifyNode 1 fun v => { v with boost := -v.mass },
    .pair 0 0 1 { length := some (.number (.float 0)) }] ⟨.empty ⟨.int 1, 1, 1⟩, .empty Level.warning⟩

/-- Its shares cannot be computed, but it can be relaxed. -/
theorem correct_divides_hollow : (sharesOf 0).answer hollowBar = .error .zeroDivision ∧
    ∃ k, (correct 0).answer hollowBar = .ok k := by
  have hconsistent : hollowBar.assembly.Consistent := consistent_run (Assembly.consistent_empty _) _
  have hvalid : (⟨.int 1, 1, 1⟩ : Config ℝ).Valid := ⟨by decide, zero_lt_one, zero_lt_one⟩
  have hmass : ∀ n ∈ (hollowBar.assembly.system 0).nodes,
      (hollowBar.assembly.node n).base = false → 0 < (hollowBar.assembly.node n).mass := by
    intro n hn _
    obtain rfl | rfl : n = 0 ∨ n = 1 := by
      change n ∈ [0, 1] at hn
      simpa using hn
    · exact zero_lt_one
    · exact zero_lt_one
  have hconstant : ∀ c ∈ [0], ∀ t ∈ (hollowBar.assembly.constraint c).targets, ∃ x, t.Constant x := by
    intro c hc t ht
    obtain rfl := List.mem_singleton.mp hc
    obtain rfl := List.mem_singleton.mp (show t ∈ [.fixed 0] from ht)
    exact ⟨_, .fixed⟩
  -- the boost cancels the mass of the second node, which a sweep undoes when it clears the boosts
  have hweightless : (⟨1, 0, false, 1, none, -1⟩ : Node ℝ).inverseMass = .error .zeroDivision := by
    unfold Node.inverseMass Node.effectiveMass Scalar.divide
    simp
  refine ⟨?_, ((correct_divides hollowBar hconsistent 0 [0] rfl hvalid hmass).1).resolve_right ?_⟩
  · change (ofExcept (⟨⟨0, 0, true, 1, none, 0⟩, ⟨1, 0, false, 1, none, -1⟩⟩ : Ends ℝ).shares).answer hollowBar = _
    unfold Ends.shares
    rw [hweightless]
    rfl
  · rintro ⟨fault, -, hfault⟩
    exact not_failsToRead hconstant fault hfault

end Act

end Linkage
