import Linkage.Proofs.Atomicity
import Linkage.Proofs.SideBySide
import Linkage.Proofs.Working

/-!
# Linkage.Proofs.History — relaxing a system does not depend on what was done with it before

Three things are left over from earlier runs: the boosts of nodes, the states that constraints saved, and what references
remember.  None of them reaches the outcome (`correct_forgets`).  Preparing clears the boosts before a share is computed and
saves new states before any is put back, and a coherent memory only says what would be found anyway.  So two states of
one system are abreast from the first preparation on (`SameSystem.abreast`), if callable targets read nothing but the
length and the angle of their owner.
-/

namespace Linkage

variable {α : Type} [Scalar α]

/-- The target is no callable, or one that reads nothing but the length and the angle of its owner. -/
def Target.OwnSighted (t : Target α) : Prop :=
  t.IfCallable fun read =>
    ∀ v v' : Sight α, v'.owner = v.owner → v'.length = v.length → v'.angle = v.angle → read v' = read v

theorem Target.OwnSighted.respects {t : Target α} (h : t.OwnSighted) (w : Comparison α) : t.Respects w := by
  refine h.mono fun read hread v v' howner hseen hnode _ _ => ?_
  have hrel : ∀ n ∈ v.owner.nodes, w.rel (v.node n) (v'.node n) := fun n hn => hnode n (hseen n hn)
  refine hread v v' howner ?_ ?_
  · unfold Sight.length
    rw [howner]
    exact Comparison.length_eq hrel
  · unfold Sight.angle
    rw [howner]
    exact Comparison.angle_eq hrel

/-! ### Nodes up to what is left over -/

/-- Two nodes in one place, with one mass, both base nodes or neither. -/
structure Node.SameBody (v w : Node α) : Prop where
  x : w.x = v.x
  y : w.y = v.y
  base : w.base = v.base
  mass : w.mass = v.mass

/-- The same body, and the same boost unless it is that of a base node, which counts nothing. -/
structure Node.SameWork (v w : Node α) : Prop extends Node.SameBody v w where
  boost : v.base = false → w.boost = v.boost

namespace Node.SameWork

variable {v w : Node α}

theorem inverseMass (h : v.SameWork w) : w.inverseMass = v.inverseMass := by
  unfold Node.inverseMass Node.effectiveMass
  rw [h.base, h.mass]
  by_cases hbase : v.base = true
  · rw [if_pos hbase, if_pos hbase]
  · rw [if_neg hbase, if_neg hbase, h.boost (Bool.eq_false_iff.mpr hbase)]

theorem addBoost (h : v.SameWork w) : v.addBoost.SameWork w.addBoost := by
  unfold Node.addBoost
  rw [h.base]
  by_cases hbase : v.base = true
  · rw [if_pos hbase, if_pos hbase]
    exact h
  · rw [if_neg hbase, if_neg hbase]
    exact ⟨⟨h.x, h.y, rfl, h.mass⟩, fun hfree => congrArg (· + 1) (h.boost hfree)⟩

theorem clearBoost (h : v.SameBody w) : v.clearBoost.SameWork w.clearBoost := by
  unfold Node.clearBoost
  rw [h.base]
  by_cases hbase : v.base = true
  · rw [if_pos hbase, if_pos hbase]
    exact ⟨h, fun hfree => absurd (hbase.symm.trans hfree) (by decide)⟩
  · rw [if_neg hbase, if_neg hbase]
    exact ⟨⟨h.x, h.y, rfl, h.mass⟩, fun _ => rfl⟩

end Node.SameWork

/-! ### Two states of one system -/

namespace Assembly

/-- The system `s` is the same in `a` and in `b`, but for boosts, saved states and what references remember. -/
structure SameSystem (s : SystemId) (a b : Assembly α) : Prop where
  nodes : (b.system s).nodes = (a.system s).nodes
  constraints : (b.system s).constraints = (a.system s).constraints
  config : b.config (b.system s).config = a.config (a.system s).config
  node : ∀ n ∈ (a.system s).nodes, (a.node n).SameBody (b.node n)
  constraint : ∀ c ∈ (a.system s).constraints, b.constraint c = { a.constraint c with saved := (b.constraint c).saved }

/-- Nodes that the constraints of the system join are the same up to the boosts of base nodes, and its other nodes are
in the same places. -/
def betweenStates (s : SystemId) (a b : Assembly α) : Comparison α where
  seen n := n ∈ a.nodesOf (a.system s).constraints
  rel := Node.SameWork
  rest n v w := n ∈ (a.system s).nodes → w.x = v.x ∧ w.y = v.y
  drift := b.readings - a.readings
  inverseMass := Node.SameWork.inverseMass
  vectorTo h h' := by
    unfold Node.vectorTo
    rw [h.x, h.y, h'.x, h'.y]
  push dx dy h := ⟨⟨congrArg (· + dx) h.x, congrArg (· + dy) h.y, h.base, h.mass⟩, h.boost⟩
  pull dx dy h := ⟨⟨congrArg (· - dx) h.x, congrArg (· - dy) h.y, h.base, h.mass⟩, h.boost⟩
  addBoost := Node.SameWork.addBoost
  clearBoost h := Node.SameWork.clearBoost h.toSameBody

namespace SameSystem

variable {s : SystemId} {a b : Assembly α} (h : SameSystem s a b)
include h

theorem sameConstraints : SameConstraints s a b :=
  ⟨fun c hc => by rwa [h.constraints], fun c hc _ => by rwa [← h.constraints], h.constraint, h.config⟩

theorem nodesOf : b.nodesOf (b.system s).constraints = a.nodesOf (a.system s).constraints := by
  unfold Assembly.nodesOf
  rw [h.constraints, List.flatMap_def, List.flatMap_def]
  congr 1
  refine List.map_congr_left fun c hc => ?_
  rw [h.constraint c hc]

/-- Once the boosts are cleared, nothing is left of the past that a correction could read. -/
theorem abreast (ha : ∃ made, Coherent made a) (hb : ∃ made, Coherent made b)
    (hsighted : ∀ c ∈ (a.system s).constraints, ∀ t ∈ (a.constraint c).targets, t.OwnSighted) :
    Abreast (betweenStates s a b) (a.system s).constraints (a.clearBoosts (a.nodesOf (a.system s).constraints))
      (b.clearBoosts (b.nodesOf (b.system s).constraints)) := by
  obtain ⟨made, hmade⟩ := ha
  obtain ⟨made', hmade'⟩ := hb
  have hclear (c : Assembly α) (nodes : List NodeId) : Relaxed c (c.clearBoosts nodes) :=
    (corrected_clearBoosts (List.Subset.refl nodes) c).relaxed
  have hjoined (c : ConstraintId) (hc : c ∈ (a.system s).constraints) :
      ∀ n ∈ (a.constraint c).shape.nodes, n ∈ a.nodesOf (a.system s).constraints := fun n hn =>
    List.mem_flatMap.mpr ⟨c, hc, hn⟩
  -- the constraints join nodes of the system only, and of these places, kinds and masses are the same in both
  have hlisted : ∀ n ∈ a.nodesOf (a.system s).constraints, n ∈ (a.system s).nodes := by
    intro n hn
    obtain ⟨c, hc, hn⟩ := List.mem_flatMap.mp hn
    exact hmade.consistent.listed s c hc hn
  rw [h.nodesOf]
  refine {
    coherent := ⟨made, hmade.relaxed (hclear a _)⟩
    coherent' := ⟨made', hmade'.relaxed (hclear b _)⟩
    task := fun c hc => ?_
    node := fun n (hn : n ∈ a.nodesOf (a.system s).constraints) => ?_
    rest := fun n (hn : n ∉ a.nodesOf (a.system s).constraints) hmem => ?_
    readings := ?_ }
  · have htask : SameTask (betweenStates s a b) c a b :=
      h.sameConstraints.sameTask hmade.consistent hc hmade'.consistent (hjoined c hc)
        (fun t ht r hr d hd => hjoined d (hmade.consistent.mem_of_lookUp hc hd))
        fun t ht => (hsighted c hc t ht).respects _
    exact htask.samePlan (hclear a _).toSamePlan (hclear b _).toSamePlan
  · rw [node_clearBoosts, node_clearBoosts, if_pos hn, if_pos hn]
    exact .clearBoost (h.node n (hlisted n hn))
  · rw [node_clearBoosts, node_clearBoosts, if_neg hn, if_neg hn]
    exact ⟨(h.node n hmem).x, (h.node n hmem).y⟩
  · rw [Abreast.readings_clearBoosts, Abreast.readings_clearBoosts]
    change (b.readings : Int) = a.readings + (b.readings - a.readings)
    omega

end SameSystem

end Assembly

namespace Act

open Assembly (Abreast Coherent Relaxed SameSystem betweenStates)

/-! ### Relaxing -/

/-- Relaxing two states of one system concurs, and a run that meets every constraint leaves them abreast. -/
theorem concur_correct_sameSystem {s : SystemId} {a b : Assembly α} (h : SameSystem s a b)
    (ha : ∃ made, Coherent made a) (hb : ∃ made, Coherent made b)
    (hsighted : ∀ c ∈ (a.system s).constraints, ∀ t ∈ (a.constraint c).targets, t.OwnSighted) :
    Concur Eq (fun k k' a' b' => k' = k ∧ (1 ≤ k → Abreast (betweenStates s a b) (a.system s).constraints a' b'))
      (correct s) (correct s) a b := by
  refine concur_correct_abreast (by rw [h.config]) (fun n => by rw [h.nodes]) ?_ ?_ ?_ (h.abreast ha hb hsighted)
  · intro a' b' hab n hn
    have hplace : (b'.node n).x = (a'.node n).x ∧ (b'.node n).y = (a'.node n).y := by
      by_cases hjoined : n ∈ a.nodesOf (a.system s).constraints
      · have hsame : (a'.node n).SameWork (b'.node n) := hab.node n hjoined
        exact ⟨hsame.x, hsame.y⟩
      · exact hab.rest n hjoined hn
    unfold Node.isFinite
    rw [hplace.1, hplace.2]
  · intro a' b' hab _ _
    rw [h.nodesOf]
    exact hab.clearBoosts (fun n => Iff.rfl) fun n hn => hn
  · intro a' b' hab _ _
    rw [h.constraints]
    refine (concur_of_agree (fun e => rfl) (agree_correctAll_abreast hab (List.Subset.refl _))).mono ?_
    rintro met met' a'' b'' ⟨hmet, hab'⟩
    exact ⟨hmet.symm, hab'⟩

/-- A run that meets every constraint makes no node a base node, and no base node another one. -/
theorem base_after_correct (st : Session α) (s : SystemId) {k : Nat} (hk : 1 ≤ k)
    (hanswer : (correct s).answer st = .ok k) {n : NodeId} :
    (((correct s).after st).assembly.node n).base = (st.assembly.node n).base := by
  obtain ⟨hfirst, hnodes⟩ := (runs_correct st s).at_session k hk
  have hworked := ((hfirst.mp hanswer).2).worked (Nat.le_refl k) n
  unfold Assembly.node at hworked ⊢
  rw [hnodes hanswer]
  exact hworked.body.2.1

/-- Take two states of one system that differ in boosts, in the states that constraints saved, and in what references
remember, with coherent memories, with a cap of one sweep or more and with no callable target that reads more than the
length and the angle of its owner.  Relaxing gives the same answer or the same failure in both and leaves the nodes in the
same places; if every constraint was met, also the boosts of nodes that are no base nodes and that a constraint joins
are the same. -/
theorem correct_forgets (st st' : Session α) (s : SystemId) (hst : ∃ made, Coherent made st.assembly)
    (hst' : ∃ made, Coherent made st'.assembly) (hsame : SameSystem s st.assembly st'.assembly)
    (hcap : 1 ≤ (st.assembly.config (st.assembly.system s).config).cap)
    (hsighted : ∀ c ∈ (st.assembly.system s).constraints, ∀ t ∈ (st.assembly.constraint c).targets, t.OwnSighted) :
    (correct s).answer st' = (correct s).answer st ∧
      (∀ n ∈ (st.assembly.system s).nodes,
        (((correct s).after st').assembly.node n).x = (((correct s).after st).assembly.node n).x ∧
          (((correct s).after st').assembly.node n).y = (((correct s).after st).assembly.node n).y) ∧
      ∀ k, 1 ≤ k → (correct s).answer st = .ok k → ∀ c ∈ (st.assembly.system s).constraints,
        ∀ n ∈ (st.assembly.constraint c).shape.nodes, (st.assembly.node n).base = false →
          (((correct s).after st').assembly.node n).boost = (((correct s).after st).assembly.node n).boost := by
  have hcap' : 1 ≤ (st'.assembly.config (st'.assembly.system s).config).cap := by
    rw [hsame.config]
    exact hcap
  have hend := (concur_correct_sameSystem hsame hst hst' hsighted).at_sessions
  refine ⟨hend.answer_eq, fun n hn => ?_, fun k hk hanswer c hc n hn hfree => ?_⟩
  -- after a run that is rolled back, all is as before it
  · rcases hend.rolled_back_or with ⟨hfailed, hfailed'⟩ | habreast
    · obtain ⟨hx, hy⟩ := (runs_correct_placed st s hcap).at_session hfailed n
      obtain ⟨hx', hy'⟩ := (runs_correct_placed st' s hcap').at_session hfailed' n
      rw [hx, hy, hx', hy']
      exact ⟨(hsame.node n hn).x, (hsame.node n hn).y⟩
    · by_cases hjoined : n ∈ st.assembly.nodesOf (st.assembly.system s).constraints
      · have hnode : (((correct s).after st).assembly.node n).SameWork (((correct s).after st').assembly.node n) :=
          habreast.node n hjoined
        exact ⟨hnode.x, hnode.y⟩
      · exact habreast.rest n hjoined hn
  · have hnode : (((correct s).after st).assembly.node n).SameWork (((correct s).after st').assembly.node n) :=
      (hend.of_met hk hanswer).node n (List.mem_flatMap.mpr ⟨c, hc, hn⟩)
    refine hnode.boost ?_
    rw [base_after_correct st s hk hanswer]
    exact hfree

/-- A rod that has to shrink and a bar that has to become as long as the rod. -/
def barAndRod : List (Operation Float) :=
  [.make (.lengthFrom "rod" none), .newSystem none,
    .node 0 0 0 { base := some true }, .node 0 10 0 {}, .node 0 0 4 {},
    .pair 0 0 2 { id := some (some "rod"), length := some (.number (.int 3)) },
    .pair 0 0 1 { length := some (.target (.computed rodLength)) }]

/-- Uses of the bar that move nothing: its target remembers the rod, it saves its nodes, and a boost is counted. -/
def barUses : List (Operation Float) := [.targetLength 1, .prepare true 1, .modifyNode 1 Node.addBoost]

theorem relaxed_barUses (st : Session Float) : Relaxed st.assembly (run barUses st).assembly := by
  have hread := (relaxed_targetLength (α := Float) 1 st.assembly).at_session
  have hsave := Assembly.relaxed_prepare true ((targetLength 1).after st).assembly 1
  exact trans_of _ (trans_of _ hread hsave) (Assembly.relaxed_setNode _ 1 _)

theorem correct_forgets_used :
    (correct 0).answer (run (barAndRod ++ barUses) ⟨.empty .standard, .empty Level.warning⟩) = .ok 2 ∧
      (correct 0).answer (run barAndRod ⟨.empty .standard, .empty Level.warning⟩) = .ok 2 ∧
      ((run (barAndRod ++ barUses) ⟨.empty .standard, .empty Level.warning⟩).assembly.node 1).boost ≠
        ((run barAndRod ⟨.empty .standard, .empty Level.warning⟩).assembly.node 1).boost := by
  set st := run barAndRod ⟨.empty .standard, .empty Level.warning⟩
  have huses : run (barAndRod ++ barUses) ⟨.empty .standard, .empty Level.warning⟩ = run barUses st :=
    List.foldl_append ..
  rw [huses]
  have hplan := relaxed_barUses st
  have hgenuine : Genuine [] barAndRod ⟨.empty .standard, .empty Level.warning⟩ := genuine_rodLength (by
    simp [Operation.references, referencesOf, rodLength, Spec.references, Target.references, Formula.references])
  have hcoherent := coherent_run_empty hgenuine
  have hbody : ∀ n ∈ (st.assembly.system 0).nodes, ((run barUses st).assembly.node n).x = (st.assembly.node n).x ∧
      ((run barUses st).assembly.node n).y = (st.assembly.node n).y ∧
      ((run barUses st).assembly.node n).base = (st.assembly.node n).base ∧
      ((run barUses st).assembly.node n).mass = (st.assembly.node n).mass := by decide +kernel
  have hsame : SameSystem 0 st.assembly (run barUses st).assembly := {
    nodes := by rw [hplan.system]
    constraints := by rw [hplan.system]
    config := by rw [hplan.system, hplan.config]
    node := fun n hn => ⟨(hbody n hn).1, (hbody n hn).2.1, (hbody n hn).2.2.1, (hbody n hn).2.2.2⟩
    constraint := fun c _ => hplan.constraint c }
  have hcap : 1 ≤ (st.assembly.config (st.assembly.system 0).config).cap := by decide +kernel
  have hsighted : ∀ c ∈ (st.assembly.system 0).constraints, ∀ t ∈ (st.assembly.constraint c).targets, t.OwnSighted :=
    fun c hc t ht => t.ifCallable_of_not_callable (by
      revert c t
      decide +kernel)
  have hanswer : (correct 0).answer st = .ok 2 := eq_ok_of_toOption (by decide +kernel)
  refine ⟨?_, hanswer, by decide +kernel⟩
  rw [(correct_forgets st (run barUses st) 0 ⟨_, hcoherent⟩ ⟨_, hcoherent.relaxed hplan⟩ hsame hcap hsighted).1]
  exact hanswer

end Act

end Linkage
