import Linkage.Config.Standard
import Linkage.Proofs.Memory
import Linkage.Proofs.Rollback
import Linkage.Proofs.Working

/-!
# Linkage.Proofs.Network — networks of bars that have come to rest

A bar is a pair with no wanted angle whose wanted length, if it has one, goes by its own length at most
(`Constraint.IsBar`).  Correcting a bar answers that it was met exactly if its length is within the tolerance of the wanted
one, and then moves nothing (`runs_correctOne_bar`).  So when a sweep meets all bars of a system, every one of these tests
speaks about the nodes as they are in the end (`runs_answersOf_bars`), and any other system of some of the bars, in any
order, finds the same (`correct_part`).
-/

namespace Linkage

variable {α : Type}

theorem Act.and_true_eq_ok_iff {r : Except (Fault α) Bool} :
    (fun met => met && true) <$> r = .ok true ↔ r = .ok true := by
  cases r with
  | error fault => exact ⟨fun h => (nomatch h), fun h => (nomatch h)⟩
  | ok met =>
    change Except.ok (met && true) = .ok true ↔ _
    rw [Bool.and_true]

variable [Scalar α]

/-- How the wanted length follows from the own one, for formulas that keep the own length within bounds. -/
def Formula.lengthRule? : Formula α → Option (α → α)
  | .ownLengthMin least => some fun r => Scalar.max r least
  | .ownLengthMax most => some fun r => Scalar.min r most
  | .ownLengthRange least most => some fun r => Scalar.clamp r least most
  | _ => none

/-- How the wanted length follows from the own one, for targets that are fixed or keep it within bounds. -/
def Target.lengthRule? : Target α → Option (α → α)
  | .fixed x => some fun _ => x
  | .computed k => k.formula.lengthRule?

/-- There is no wanted angle, and a wanted length goes by the own length at most. -/
structure Constraint.IsBar (k : Constraint α) : Prop where
  angle : k.angleTarget = none
  length : ∀ t, k.lengthTarget = some t → ∃ rule, t.lengthRule? = some rule

/-- The distance between two nodes is within the tolerance of the one that a target wants there. -/
def Rests (tolerance : α) (node : NodeId → Node α) (first second : NodeId) (t? : Option (Target α)) : Prop :=
  ∀ t rule, t? = some t → t.lengthRule? = some rule →
    Scalar.abs (rule ((node first).vectorTo (node second)).length - ((node first).vectorTo (node second)).length) <
      tolerance

/-- A pair has its wanted length within the tolerance. -/
def Constraint.Rests (k : Constraint α) (tolerance : α) (node : NodeId → Node α) : Prop :=
  ∀ first second direction, k.shape = .pair first second direction →
    Linkage.Rests tolerance node first second k.lengthTarget

variable {tolerance : α} {node node' : NodeId → Node α}

/-- Only the places of the two nodes matter. -/
theorem Rests.of_places {first second : NodeId} {t? : Option (Target α)} (h : Rests tolerance node first second t?)
    (hfirst : (node' first).x = (node first).x ∧ (node' first).y = (node first).y)
    (hsecond : (node' second).x = (node second).x ∧ (node' second).y = (node second).y) :
    Rests tolerance node' first second t? := by
  have hvector : (node' first).vectorTo (node' second) = (node first).vectorTo (node second) := by
    unfold Node.vectorTo
    rw [hfirst.1, hfirst.2, hsecond.1, hsecond.2]
  intro t rule ht hrule
  rw [hvector]
  exact h t rule ht hrule

theorem Constraint.Rests.of_places {k : Constraint α} (h : k.Rests tolerance node)
    (hplaces : ∀ n, (node' n).x = (node n).x ∧ (node' n).y = (node n).y) : k.Rests tolerance node' :=
  fun first second direction hshape => (h first second direction hshape).of_places (hplaces first) (hplaces second)

theorem rests_some {first second : NodeId} {t : Target α} {rule : α → α} (hrule : t.lengthRule? = some rule) :
    Rests tolerance node first second (some t) ↔ Scalar.abs (rule ((node first).vectorTo (node second)).length -
      ((node first).vectorTo (node second)).length) < tolerance := by
  constructor
  · intro h
    exact h t rule rfl hrule
  · rintro h _ _ ⟨⟩ hrule'
    cases hrule.symm.trans hrule'
    exact h

theorem Constraint.rests_pair {k : Constraint α} {first second : NodeId} {direction : Direction}
    (hshape : k.shape = .pair first second direction) :
    k.Rests tolerance node ↔ Linkage.Rests tolerance node first second k.lengthTarget := by
  constructor
  · intro h
    exact h first second direction hshape
  · intro h first' second' direction' hshape'
    cases hshape.symm.trans hshape'
    exact h

theorem Target.references_of_rule {t : Target α} {rule : α → α} (h : t.lengthRule? = some rule) : t.references = [] := by
  cases t with
  | fixed x => rfl
  | computed k =>
    obtain ⟨name, f⟩ := k
    cases f with
    | ownLengthMin least => rfl
    | ownLengthMax most => rfl
    | ownLengthRange least most => rfl
    | _ => cases h

theorem Assembly.targetValue_of_rule {a : Assembly α} {c : ConstraintId} {t : Target α} {rule : α → α}
    {first second : NodeId} {direction : Direction} (hshape : (a.constraint c).shape = .pair first second direction)
    (h : t.lengthRule? = some rule) :
    a.targetValue c t = .ok (rule ((a.node first).vectorTo (a.node second)).length) := by
  have hlength : a.length c = .ok ((a.node first).vectorTo (a.node second)).length := by
    unfold Assembly.length
    rw [hshape]
    rfl
  cases t with
  | fixed x =>
    cases h
    rfl
  | computed k =>
    obtain ⟨name, f⟩ := k
    change a.valueOf c f = _
    cases f with
    | ownLengthMin least => cases h; simp only [Assembly.valueOf, hlength]; rfl
    | ownLengthMax most => cases h; simp only [Assembly.valueOf, hlength]; rfl
    | ownLengthRange least most => cases h; simp only [Assembly.valueOf, hlength]; rfl
    | _ => cases h

namespace Act

open Assembly (Consistent Corrected Placed)

variable {a : Assembly α} {c : ConstraintId} {constraints : List ConstraintId}

/-! ### One bar -/

/-- The wanted length of a bar is read without a change to nodes or design. -/
theorem runs_targetLength_bar (hbar : (a.constraint c).IsBar) {first second : NodeId} {direction : Direction}
    (hshape : (a.constraint c).shape = .pair first second direction) :
    Runs (targetLength c) a fun r b => b.node = a.node ∧
      ((a.constraint c).lengthTarget = none ∧ r = .ok none ∨ ∃ t rule, (a.constraint c).lengthTarget = some t ∧
        t.lengthRule? = some rule ∧ r = .ok (some (rule ((a.node first).vectorTo (a.node second)).length))) := by
  -- such a length follows no references, so that reading it consults no memory and looks nothing up
  refine (runs_targetLength a c).mono fun r b ⟨hconsulted, hvalue⟩ => ⟨funext hconsulted.node, ?_⟩
  cases htarget : (a.constraint c).lengthTarget with
  | none =>
    rw [htarget] at hvalue
    have hnone : ∀ r : Reference, r ∉ Target.referencesOf (none : Option (Target α)) := fun r => List.not_mem_nil
    exact Or.inl ⟨rfl, hvalue (fun r hr => absurd hr (hnone r)) fun r hr => absurd hr (hnone r)⟩
  | some t =>
    obtain ⟨rule, hrule⟩ := hbar.length t htarget
    rw [htarget] at hvalue
    have hnone : ∀ r : Reference, r ∉ Target.referencesOf (some t) := fun r hr => by
      change r ∈ t.references at hr
      rw [Target.references_of_rule hrule] at hr
      exact List.not_mem_nil hr
    have hread := hvalue (fun r hr => absurd hr (hnone r)) fun r hr => absurd hr (hnone r)
    refine Or.inr ⟨t, rule, rfl, hrule, hread.trans ?_⟩
    change some <$> a.targetValue c t = _
    rw [Assembly.targetValue_of_rule hshape hrule]
    rfl

/-- The length pass says that the wanted distance was met exactly if it was, and then moves nothing. -/
theorem runs_lengthPass (a : Assembly α) (cfg : Config α) (target : α) (first second : NodeId) :
    Runs (onEnds first second (lengthPass cfg target)) a fun r b => (r = .ok true ↔
      Scalar.abs (target - ((a.node first).vectorTo (a.node second)).length) < cfg.tolerance) ∧
      (r = .ok true → b.node = a.node) := by
  by_cases hmet : Scalar.abs (target - (⟨a.node first, a.node second⟩ : Ends α).vector.length) < cfg.tolerance
  · refine runs_onEnds (lengthPass_of_near hmet) ⟨iff_of_true rfl hmet, fun _ => funext fun n => ?_⟩
    rw [Assembly.node_setNode, Assembly.node_setNode]
    split
    case isTrue h => rw [h]
    case isFalse =>
      split
      case isTrue h => rw [h]
      case isFalse => rfl
  · refine (runs_onEnds_ok a first second _).mono fun r b hpass => ?_
    have hunmet : r ≠ .ok true := by
      rintro rfl
      obtain ⟨e, hran, -⟩ := hpass true rfl
      cases stretches_of_lengthPass hran with
      | met near => exact hmet near
    exact ⟨iff_of_false hunmet hmet, fun h => absurd h hunmet⟩

/-- A bar answers that it was met exactly if it has its wanted length within the tolerance, and then moves nothing. -/
theorem runs_correctOne_bar (hbar : (a.constraint c).IsBar) : Runs (correctOne c) a fun r b =>
    (r = .ok true ↔ (a.constraint c).Rests (a.configOf c).tolerance a.node) ∧ (r = .ok true → b.node = a.node) := by
  refine runs_read ?_
  cases hshape : (a.constraint c).shape with
  | triple apex ray arm =>
    dsimp only
    rw [hbar.angle]
    refine runs_pure ⟨iff_of_true rfl fun first second direction h => ?_, fun _ => rfl⟩
    exact nomatch hshape.symm.trans h
  | pair first second direction =>
    have hangle : Runs (targetAngle c) a fun r b => r = .ok none ∧ b = a := by
      refine runs_read ?_
      rw [hbar.angle]
      exact runs_pure ⟨rfl, rfl⟩
    rw [Constraint.rests_pair hshape]
    refine runs_bind (hangle.mono fun r b ⟨hr, hb⟩ => ?_)
    rw [hr, hb, then_ok]
    refine runs_bind (runs_pure ?_)
    rw [then_ok]
    refine runs_bind ((runs_targetLength_bar hbar hshape).mono fun r b ⟨hnode, hr⟩ => ?_)
    rcases hr with ⟨hfree, rfl⟩ | ⟨t, rule, htarget, hrule, rfl⟩
    · rw [then_ok, hfree]
      refine runs_bind (runs_pure ?_)
      rw [then_ok]
      exact runs_pure ⟨iff_of_true rfl fun t rule ht => (nomatch ht), fun _ => hnode⟩
    · rw [then_ok, htarget, rests_some hrule, ← hnode]
      refine runs_bind_pure ((runs_lengthPass b _ _ first second).mono fun r' b' hpass => ?_)
      rwa [and_true_eq_ok_iff]

/-! ### A sweep of bars -/

/-- Correcting bars in a row answers that all were met exactly if all have their wanted lengths within the tolerance as
the nodes are before, and then moves nothing. -/
theorem runs_answersOf_bars (hbars : ∀ c ∈ constraints, (a.constraint c).IsBar) :
    Runs (answersOf constraints) a fun r b => (∀ answers, r = .ok answers → (∀ met ∈ answers, met = true) →
        ∀ c ∈ constraints, (a.constraint c).Rests (a.configOf c).tolerance a.node) ∧
      ((∀ c ∈ constraints, (a.constraint c).Rests (a.configOf c).tolerance a.node) →
        (∃ answers, r = .ok answers ∧ ∀ met ∈ answers, met = true) ∧ b.node = a.node) := by
  -- by induction on the bars: one that is met moves nothing, so that the rest is judged where the sweep began
  induction constraints generalizing a with
  | nil =>
    refine runs_pure ⟨fun _ _ _ c hc => absurd hc List.not_mem_nil, fun _ => ⟨⟨[], rfl, ?_⟩, rfl⟩⟩
    exact fun met hmet => absurd hmet List.not_mem_nil
  | cons c rest ih =>
    obtain ⟨hc, hrest⟩ := List.forall_mem_cons.mp hbars
    refine runs_bind (((runs_correctOne_bar hc).and (runs_correctOne (List.Subset.refl _))).mono ?_)
    rintro r b ⟨⟨hmet, hnode⟩, hdesign⟩
    cases r with
    | error fault =>
      refine ⟨fun answers h => (nomatch h), fun hrests => ?_⟩
      exact nomatch hmet.mpr (hrests c List.mem_cons_self)
    | ok met =>
      rw [then_ok]
      refine runs_bind_pure ((ih (a := b) fun d hd => by rw [hdesign.constraint]; exact hrest d hd).mono ?_)
      rintro r' b' ⟨hbefore, hafter⟩
      simp only [hdesign.constraint, hdesign.samePlan.configOf] at hbefore hafter
      constructor
      · intro answers hanswers hall
        cases r' with
        | error fault => exact nomatch hanswers
        | ok later =>
          cases hanswers
          obtain ⟨rfl, hlater⟩ := List.forall_mem_cons.mp hall
          have hrests := hbefore later rfl hlater
          rw [hnode rfl] at hrests
          exact List.forall_mem_cons.mpr ⟨hmet.mp rfl, hrests⟩
      · intro hrests
        obtain ⟨hfirst, hothers⟩ := List.forall_mem_cons.mp hrests
        cases hmet.mpr hfirst
        rw [hnode rfl] at hafter
        obtain ⟨⟨later, rfl, hlater⟩, hsame⟩ := hafter hothers
        exact ⟨⟨true :: later, rfl, List.forall_mem_cons.mpr ⟨rfl, hlater⟩⟩, hsame⟩

/-- The same for a sweep, which only clears boosts before that. -/
theorem runs_bareSweep_bars (hbars : ∀ c ∈ constraints, (a.constraint c).IsBar) :
    Runs (bareSweep constraints) a fun r b => (∀ answers, r = .ok answers → (∀ met ∈ answers, met = true) →
        ∀ c ∈ constraints, (a.constraint c).Rests (a.configOf c).tolerance a.node) ∧
      ((∀ c ∈ constraints, (a.constraint c).Rests (a.configOf c).tolerance a.node) →
        (∃ answers, r = .ok answers ∧ ∀ met ∈ answers, met = true) ∧ ∀ n, Placed a b n) := by
  have hclear : Corrected (a.nodesOf constraints) a (a.clearBoosts (a.nodesOf constraints)) :=
    Assembly.corrected_clearBoosts (List.Subset.refl _) a
  have hplaced := Assembly.placed_clearBoosts a (a.nodesOf constraints)
  refine runs_after_change ((runs_answersOf_bars fun c hc => by rw [hclear.constraint]; exact hbars c hc).mono ?_)
  rintro r b ⟨hbefore, hafter⟩
  simp only [hclear.constraint, hclear.samePlan.configOf] at hbefore hafter
  constructor
  · intro answers hanswers hall c hc
    exact (hbefore answers hanswers hall c hc).of_places fun n => ⟨(hplaced n).1.symm, (hplaced n).2.symm⟩
  · intro hrests
    obtain ⟨hall, hnode⟩ := hafter fun c hc => (hrests c hc).of_places hplaced
    refine ⟨hall, fun n => ?_⟩
    unfold Placed
    rw [hnode]
    exact hplaced n

/-! ### Parts of a network -/

/-- The system `s'` of `b` is made of some bars of the system `s` of `a`, in any order and with repetitions, over the
same nodes in the same places. -/
structure PartOf (s s' : SystemId) (a b : Assembly α) : Prop where
  listed : (b.system s').nodes ⊆ (a.system s).nodes
  placed : ∀ n ∈ (a.system s).nodes, Placed a b n
  tolerance : (b.config (b.system s').config).tolerance = (a.config (a.system s).config).tolerance
  bars : ∀ d ∈ (b.system s').constraints, (b.constraint d).angleTarget = none ∧
    ∃ c ∈ (a.system s).constraints, ∃ first second direction direction',
      (a.constraint c).shape = .pair first second direction ∧ (b.constraint d).shape = .pair first second direction' ∧
        (b.constraint d).lengthTarget = (a.constraint c).lengthTarget

/-- After sweeps that converge, all bars have their wanted lengths within the tolerance at once. -/
theorem Converges.rests {st : Session α} {s : SystemId} {i : Nat} (h : Converges s constraints (i + 1) st)
    (hbars : ∀ c ∈ constraints, (st.assembly.constraint c).IsBar) :
    ∀ c ∈ constraints, (st.assembly.constraint c).Rests (st.assembly.configOf c).tolerance
      (Act.swept constraints (i + 1) st).assembly.node := by
  obtain ⟨answers, hanswer, hmet, -⟩ := h.sweeps (Nat.lt_succ_self i)
  have hdesign := corrected_swept constraints i st
  have hsweep := (runs_bareSweep_bars (a := (Act.swept constraints i st).assembly) fun c hc => by
    rw [hdesign.constraint]
    exact hbars c hc).at_session
  simp only [after_bareSweep, hdesign.constraint, hdesign.samePlan.configOf] at hsweep
  have hrests := hsweep.1 answers hanswer (hmet rfl)
  intro c hc
  exact (hrests c hc).of_places (hsweep.2 hrests).2

/-- Where all bars of a system have their wanted lengths and its nodes are finite, a run takes one sweep and moves
nothing. -/
theorem correct_of_rests {st : Session α} {s : SystemId}
    (hbars : ∀ c ∈ (st.assembly.system s).constraints, (st.assembly.constraint c).IsBar)
    (hrests : ∀ c ∈ (st.assembly.system s).constraints,
      (st.assembly.constraint c).Rests (st.assembly.configOf c).tolerance st.assembly.node)
    (hfinite : st.assembly.isFinite s) (hcap : 1 ≤ (st.assembly.config (st.assembly.system s).config).cap) :
    (correct s).answer st = .ok 1 ∧ ∀ n, Placed st.assembly ((correct s).after st).assembly n := by
  obtain ⟨-, hsweep⟩ := (runs_bareSweep_bars hbars).at_session
  obtain ⟨⟨answers, hanswer, hmet⟩, hplaced⟩ := hsweep hrests
  have hdesign := (runs_bareSweep st.assembly (st.assembly.system s).constraints).at_session
  have hfinite' : ((bareSweep (st.assembly.system s).constraints).after st).assembly.isFinite s := by
    unfold Assembly.isFinite Node.isFinite at hfinite ⊢
    simp only [(hplaced _).1, (hplaced _).2, hdesign.samePlan.system]
    exact hfinite
  have hconverges : Converges s (st.assembly.system s).constraints 1 st :=
    converges_succ.mpr ⟨answers, hanswer, hfinite', by rw [if_pos rfl]; exact hmet⟩
  have hanswer' := (((runs_correct st s).at_session 1 (Nat.le_refl 1)).1).mpr ⟨hcap, hconverges⟩
  refine ⟨hanswer', fun n => ?_⟩
  unfold Placed
  rw [node_correct (Nat.le_refl 1) hanswer']
  exact hplaced n

/-- A part of a network within one session stays one when the session is relaxed. -/
theorem PartOf.samePlan {s s' : SystemId} {a b : Assembly α} (h : PartOf s s' a a) (hplan : a.SamePlan b) :
    PartOf s s' b b where
  listed := by
    rw [hplan.system, hplan.system]
    exact h.listed
  placed _ _ := ⟨rfl, rfl⟩
  tolerance := by
    rw [hplan.system, hplan.system, hplan.config]
    exact h.tolerance
  bars := by
    simp only [hplan.system, hplan.shape, hplan.lengthTarget, hplan.angleTarget]
    exact h.bars

/-- A network of bars that a run has brought to rest is at rest in every part: a system of some of the bars, in any
order and with repetitions, over the same nodes and with the same tolerance, takes one sweep and moves nothing. -/
theorem correct_part (st st' : Session α) (hst : st.assembly.Consistent) (hst' : st'.assembly.Consistent)
    (s s' : SystemId) (hbars : ∀ c ∈ (st.assembly.system s).constraints, (st.assembly.constraint c).IsBar) (k : Nat)
    (hk : 1 ≤ k) (hanswer : (correct s).answer st = .ok k)
    (hpart : PartOf s s' ((correct s).after st).assembly st'.assembly)
    (hcap : 1 ≤ (st'.assembly.config (st'.assembly.system s').config).cap) :
    (correct s').answer st' = .ok 1 ∧ ∀ n, Placed st'.assembly ((correct s').after st').assembly n := by
  obtain ⟨i, rfl⟩ : ∃ i, k = i + 1 := ⟨k - 1, by omega⟩
  -- the run ended with a sweep in which every bar was met, and thus nothing moved
  obtain ⟨-, hconverges⟩ := (((runs_correct st s).at_session (i + 1) hk).1).mp hanswer
  have hplan := (relaxed_correct s st.assembly).at_session
  have hnode := node_correct hk hanswer
  obtain ⟨hlisted, hplaced, htolerance, hparts⟩ := hpart
  simp only [hplan.system, hplan.shape, hplan.lengthTarget, hplan.config] at hlisted hplaced htolerance hparts
  refine correct_of_rests (fun d hd => ?_) (fun d hd => ?_) ?_ hcap
  · obtain ⟨hfree, c, hc, -, -, -, -, -, -, htarget⟩ := hparts d hd
    refine ⟨hfree, fun t ht => (hbars c hc).length t ?_⟩
    rwa [← htarget]
  · obtain ⟨-, c, hc, first, second, direction, direction', hshape, hshape', htarget⟩ := hparts d hd
    have hends := hst.listed s c hc
    rw [hshape] at hends
    obtain ⟨hfirst, hsecond⟩ : first ∈ (st.assembly.system s).nodes ∧ second ∈ (st.assembly.system s).nodes := by
      simpa [Shape.nodes] using hends
    have hrests := hconverges.rests hbars c hc first second direction hshape
    rw [← hnode, hst.configOf hc, ← htolerance, ← hst'.configOf hd, ← htarget] at hrests
    exact (Constraint.rests_pair hshape').mpr (hrests.of_places (hplaced first hfirst) (hplaced second hsecond))
  · have hfinite := hconverges.finite i (Nat.lt_succ_self i)
    rw [Assembly.isFinite, List.all_eq_true] at hfinite ⊢
    rw [(corrected_swept _ _ st).samePlan.system, ← hnode] at hfinite
    intro n hn
    have hn' := hfinite n (hlisted hn)
    unfold Node.isFinite at hn' ⊢
    rwa [(hplaced n (hlisted hn)).1, (hplaced n (hlisted hn)).2]

/-- Three bars in a row from a base node, and a second system of two of them in the other order, one of them twice. -/
def barsInRow : List (Operation Float) :=
  [.make (.lengthMax 4), .newSystem none, .newSystem none,
    .node 0 0 0 { base := some true }, .node 0 10 0 {}, .node 0 5 3 {}, .node 0 5 10 {},
    .pair 0 0 1 { length := some (.number (.float 5)) },
    .pair 0 1 2 { length := some (.target (.computed ⟨.lengthMax 4, .ownLengthMax 4⟩)) },
    .pair 0 2 3 { length := some (.number (.float 7)) },
    .pair 1 1 2 { length := some (.target (.computed ⟨.lengthMax 4, .ownLengthMax 4⟩)) },
    .pair 1 0 1 { length := some (.number (.float 5)) },
    .pair 1 1 2 { length := some (.target (.computed ⟨.lengthMax 4, .ownLengthMax 4⟩)) }]

/-- The session with these bars. -/
def rowSession : Session Float := run barsInRow ⟨.empty .standard, .empty Level.warning⟩

theorem consistent_row : rowSession.assembly.Consistent := consistent_run (Assembly.consistent_empty _) barsInRow

theorem lengthTarget_row :
    (rowSession.assembly.constraint 0).lengthTarget = some (.fixed 5) ∧
    (rowSession.assembly.constraint 1).lengthTarget = some (.computed ⟨.lengthMax 4, .ownLengthMax 4⟩) ∧
    (rowSession.assembly.constraint 2).lengthTarget = some (.fixed 7) ∧
    (rowSession.assembly.constraint 3).lengthTarget = some (.computed ⟨.lengthMax 4, .ownLengthMax 4⟩) ∧
    (rowSession.assembly.constraint 4).lengthTarget = some (.fixed 5) ∧
    (rowSession.assembly.constraint 5).lengthTarget = some (.computed ⟨.lengthMax 4, .ownLengthMax 4⟩) :=
  ⟨rfl, rfl, rfl, rfl, rfl, rfl⟩

theorem isBar_row {c : ConstraintId} (hc : c ∈ [0, 1, 2]) : (rowSession.assembly.constraint c).IsBar := by
  obtain ⟨hfive, hfour, hseven, -⟩ := lengthTarget_row
  simp only [List.mem_cons, List.not_mem_nil, or_false] at hc
  obtain rfl | rfl | rfl := hc
  · refine ⟨rfl, fun t ht => ?_⟩
    cases hfive.symm.trans ht
    exact ⟨_, rfl⟩
  · refine ⟨rfl, fun t ht => ?_⟩
    cases hfour.symm.trans ht
    exact ⟨_, rfl⟩
  · refine ⟨rfl, fun t ht => ?_⟩
    cases hseven.symm.trans ht
    exact ⟨_, rfl⟩

theorem partOf_row : PartOf 0 1 rowSession.assembly rowSession.assembly := by
  obtain ⟨hfive, hfour, hseven, hfour', hfive', hfour''⟩ := lengthTarget_row
  have hconfig : rowSession.assembly.config (rowSession.assembly.system 0).config = .standard := rfl
  have hconfig' : rowSession.assembly.config (rowSession.assembly.system 1).config = .standard := rfl
  refine ⟨by decide +kernel, fun n _ => ⟨rfl, rfl⟩, by rw [hconfig, hconfig'], fun d hd => ?_⟩
  have hmem : d ∈ [3, 4, 5] := hd
  simp only [List.mem_cons, List.not_mem_nil, or_false] at hmem
  obtain rfl | rfl | rfl := hmem
  · exact ⟨rfl, 1, by decide +kernel, 1, 2, .either, .either, rfl, rfl, hfour'.trans hfour.symm⟩
  · exact ⟨rfl, 0, by decide +kernel, 0, 1, .either, .either, rfl, rfl, hfive'.trans hfive.symm⟩
  · exact ⟨rfl, 1, by decide +kernel, 1, 2, .either, .either, rfl, rfl, hfour''.trans hfour.symm⟩

theorem correct_part_row : (correct 0).answer rowSession = .ok 2 ∧
    (correct 1).answer ((correct 0).after rowSession) = .ok 1 := by
  have hplan := (relaxed_correct 0 rowSession.assembly).at_session
  have hconsistent := consistent_row.sameRegistry hplan.sameRegistry
  have hanswer : (correct 0).answer rowSession = .ok 2 := eq_ok_of_toOption (by decide +kernel)
  have hpart : PartOf 0 1 ((correct 0).after rowSession).assembly ((correct 0).after rowSession).assembly :=
    partOf_row.samePlan hplan.toSamePlan
  have hcap : 1 ≤ (((correct 0).after rowSession).assembly.config
      (((correct 0).after rowSession).assembly.system 1).config).cap := by
    rw [hplan.system, hplan.config]
    decide +kernel
  exact ⟨hanswer, (correct_part rowSession _ consistent_row hconsistent 0 1 (fun c hc => isBar_row hc) 2 (by decide)
    hanswer hpart hcap).1⟩

end Act

end Linkage
