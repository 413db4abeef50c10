import Linkage.Proofs.Exact
import Linkage.Proofs.History
import Linkage.Proofs.Neighbours

/-!
# Linkage.Proofs.Translation — relaxing a system that was shifted

Corrections read differences of positions and never a position itself, and what they add to a position does not depend on
it.  So in exact arithmetic the nodes of a system that was shifted as a whole correspond to those of the system where it
was (`Comparison.shifted`), through every pass, every target and every sweep.  Relaxing has the same answer or the same
failure, and leaves every node as far from where it would have been, with the same boost (`correct_shifted`).
-/

namespace Linkage

/-! ### Shifting -/

/-- The node that far away, otherwise the same. -/
noncomputable def Node.shift (v : Node ℝ) (d : Vec ℝ) : Node ℝ := v.moveTo (v.x + d.x) (v.y + d.y)

namespace Node

variable (v w : Node ℝ) (d : Vec ℝ)

theorem vectorTo_shift : (v.shift d).vectorTo (w.shift d) = v.vectorTo w := by
  unfold vectorTo
  congr 1
  · exact add_sub_add_right_eq_sub w.x v.x d.x
  · exact add_sub_add_right_eq_sub w.y v.y d.y

theorem shift_push (dx dy : ℝ) :
    (v.shift d).moveTo ((v.shift d).x + dx) ((v.shift d).y + dy) = (v.moveTo (v.x + dx) (v.y + dy)).shift d := by
  unfold shift moveTo
  congr 1
  · exact add_right_comm v.x d.x dx
  · exact add_right_comm v.y d.y dy

theorem shift_pull (dx dy : ℝ) :
    (v.shift d).moveTo ((v.shift d).x - dx) ((v.shift d).y - dy) = (v.moveTo (v.x - dx) (v.y - dy)).shift d := by
  unfold shift moveTo
  congr 1
  · exact (sub_add_eq_add_sub v.x dx d.x).symm
  · exact (sub_add_eq_add_sub v.y dy d.y).symm

theorem addBoost_shift : (v.shift d).addBoost = v.addBoost.shift d := by
  cases hbase : v.base <;> simp [addBoost, shift, moveTo, hbase]

theorem clearBoost_shift : (v.shift d).clearBoost = v.clearBoost.shift d := by
  cases hbase : v.base <;> simp [clearBoost, shift, moveTo, hbase]

end Node

namespace Assembly

/-- Shifts the nodes of a list, one after the other. -/
noncomputable def shiftAll (a : Assembly ℝ) (nodes : List NodeId) (d : Vec ℝ) : Assembly ℝ :=
  nodes.foldl (fun a n => a.setNode n ((a.node n).shift d)) a

/-- Shifts every node of a system. -/
noncomputable def shift (a : Assembly ℝ) (s : SystemId) (d : Vec ℝ) : Assembly ℝ := a.shiftAll (a.system s).nodes d

variable {a b : Assembly ℝ} {s : SystemId} {d : Vec ℝ}

theorem relaxed_shiftAll (a : Assembly ℝ) (nodes : List NodeId) (d : Vec ℝ) : Relaxed a (a.shiftAll nodes d) := by
  unfold shiftAll
  induction nodes generalizing a with
  | nil => exact refl_of _ a
  | cons n rest ih => exact trans_of _ (relaxed_setNode a n _) (ih _)

/-- A list that names no node twice has each of its nodes shifted once. -/
theorem node_shiftAll {nodes : List NodeId} (hnodes : nodes.Nodup) (n : NodeId) :
    (a.shiftAll nodes d).node n = if n ∈ nodes then (a.node n).shift d else a.node n := by
  unfold shiftAll
  induction nodes generalizing a with
  | nil => rw [if_neg List.not_mem_nil, List.foldl_nil]
  | cons m rest ih =>
    obtain ⟨hm, hrest⟩ := List.nodup_cons.mp hnodes
    rw [List.foldl_cons, ih hrest, node_setNode]
    -- the rest of the list does not name the node again, so nothing shifts it twice
    by_cases hmn : m = n
    · subst hmn
      rw [if_neg hm, if_pos rfl, if_pos List.mem_cons_self]
    · have hmem : n ∈ m :: rest ↔ n ∈ rest := List.mem_cons.trans (or_iff_right (Ne.symm hmn))
      rw [if_neg hmn]
      exact if_congr hmem.symm rfl rfl

theorem readings_shiftAll (a : Assembly ℝ) (nodes : List NodeId) (d : Vec ℝ) :
    (a.shiftAll nodes d).readings = a.readings := by
  unfold shiftAll
  induction nodes generalizing a with
  | nil => rfl
  | cons n rest ih => exact ih _

theorem Coherent.node_shift {made : List Reference} (h : Coherent made a) {n : NodeId} (hn : n ∈ (a.system s).nodes) :
    (a.shift s d).node n = (a.node n).shift d := by
  unfold shift
  rw [node_shiftAll (h.consistent.nodup s), if_pos hn]

end Assembly

/-! ### Shifted nodes correspond -/

/-- The nodes of a list are all that far away. -/
def Comparison.shifted (nodes : List NodeId) (d : Vec ℝ) : Comparison ℝ where
  seen n := n ∈ nodes
  rel v w := w = v.shift d
  rest _ _ _ := True
  drift := 0
  inverseMass h := by
    rw [h]
    rfl
  vectorTo h h' := by rw [h, h', Node.vectorTo_shift]
  push dx dy h := by rw [h, Node.shift_push]
  pull dx dy h := by rw [h, Node.shift_pull]
  addBoost h := by rw [h, Node.addBoost_shift]
  clearBoost h := by rw [h, Node.clearBoost_shift]

namespace Assembly

variable {a : Assembly ℝ} {made : List Reference} (s : SystemId) (d : Vec ℝ)

theorem sameConstraints_shift : SameConstraints s a (a.shift s d) := by
  have hplan := relaxed_shiftAll a (a.system s).nodes d
  have hsystem : (a.shift s d).system s = a.system s := hplan.system s
  refine ⟨fun c hc => ?_, fun c hc _ => ?_, fun c _ => hplan.constraint c, ?_⟩
  · rwa [hsystem]
  · rwa [hsystem] at hc
  · rw [hsystem, shift, hplan.config]

/-- A system runs abreast of itself as it was before it was shifted. -/
theorem Coherent.abreast_shift (h : Coherent made a)
    (hsighted : ∀ c ∈ (a.system s).constraints, ∀ t ∈ (a.constraint c).targets, t.OwnSighted) :
    Abreast (.shifted (a.system s).nodes d) (a.system s).constraints a (a.shift s d) where
  coherent := ⟨made, h⟩
  coherent' := ⟨made, h.relaxed (relaxed_shiftAll a _ d)⟩
  task c hc := (sameConstraints_shift s d).sameTask h.consistent hc (h.relaxed (relaxed_shiftAll a _ d)).consistent
    (fun _ hn => h.consistent.listed s c hc hn)
    (fun _ _ _ _ e he _ hn => h.consistent.listed s e (h.consistent.mem_of_lookUp hc he) hn)
    fun t ht => (hsighted c hc t ht).respects _
  node _ hn := h.node_shift hn
  rest _ _ := trivial
  readings := by
    rw [shift, readings_shiftAll]
    exact (Int.add_zero _).symm

/-- The constraints of a system join listed nodes only. -/
theorem Consistent.mem_nodes (h : Consistent a) {n : NodeId} (hn : n ∈ a.nodesOf (a.system s).constraints) :
    n ∈ (a.system s).nodes := by
  obtain ⟨c, hc, hn⟩ := List.mem_flatMap.mp hn
  exact h.listed s c hc hn

end Assembly

/-! ### Whole runs -/

namespace Act

open Assembly (Abreast Coherent)

variable {a : Assembly ℝ} {made : List Reference} (s : SystemId) (d : Vec ℝ)

/-- Relaxing concurs before and after a shift, and a run that meets every constraint leaves all nodes shifted. -/
theorem concur_correct_shifted (h : Coherent made a)
    (hsighted : ∀ c ∈ (a.system s).constraints, ∀ t ∈ (a.constraint c).targets, t.OwnSighted) :
    Concur Eq (fun k k' a' b' => k' = k ∧
        (1 ≤ k → Abreast (.shifted (a.system s).nodes d) (a.system s).constraints a' b'))
      (correct s) (correct s) a (a.shift s d) := by
  have hplan := Assembly.relaxed_shiftAll a (a.system s).nodes d
  have hsystem (t : SystemId) : (a.shift s d).system t = a.system t := hplan.system t
  have hconfig : (a.shift s d).config = a.config := hplan.config
  have hnodesOf (constraints : List ConstraintId) : (a.shift s d).nodesOf constraints = a.nodesOf constraints :=
    hplan.nodesOf constraints
  -- clearing the boosts keeps the two runs abreast, before the first sweep and after each
  have hclear (a' b' : Assembly ℝ) (hab : Abreast (.shifted (a.system s).nodes d) (a.system s).constraints a' b') :
      Abreast (.shifted (a.system s).nodes d) (a.system s).constraints
        (a'.clearBoosts (a.nodesOf (a.system s).constraints))
        (b'.clearBoosts ((a.shift s d).nodesOf ((a.shift s d).system s).constraints)) := by
    rw [hsystem, hnodesOf]
    exact hab.clearBoosts (fun _ => Iff.rfl) fun _ hn => h.consistent.mem_nodes s hn
  refine concur_correct_abreast (by rw [hsystem, hconfig]) (fun n => by rw [hsystem]) (fun _ _ _ _ _ => rfl)
    (fun a' b' hab _ _ => hclear a' b' hab) (fun a' b' hab _ _ => ?_) (hclear _ _ (h.abreast_shift s d hsighted))
  rw [hsystem]
  refine (concur_of_agree (fun _ => rfl) (agree_correctAll_abreast hab (List.Subset.refl _))).mono ?_
  rintro met met' _ _ ⟨hmet, hab'⟩
  exact ⟨hmet.symm, hab'⟩

/-- Shift every node of a system by a vector, whatever its constraints, with a cap of one sweep or more and with no
callable target that reads more than the length and the angle of its owner.  Relaxing then has the answer or the failure
that it has without the shift, and leaves every node of the system shifted by the vector from where it is left without,
with the same boost. -/
theorem correct_shifted (st : Session ℝ) (s : SystemId) (d : Vec ℝ) (hst : ∃ made, Coherent made st.assembly)
    (hcap : 1 ≤ (st.assembly.config (st.assembly.system s).config).cap)
    (hsighted : ∀ c ∈ (st.assembly.system s).constraints, ∀ t ∈ (st.assembly.constraint c).targets, t.OwnSighted)
    (st' : Session ℝ) (hshift : st'.assembly = st.assembly.shift s d) :
    (correct s).answer st' = (correct s).answer st ∧ ∀ n ∈ (st.assembly.system s).nodes,
      (((correct s).after st').assembly.node n).x = (((correct s).after st).assembly.node n).x + d.x ∧
        (((correct s).after st').assembly.node n).y = (((correct s).after st).assembly.node n).y + d.y ∧
        (((correct s).after st').assembly.node n).boost = (((correct s).after st).assembly.node n).boost := by
  obtain ⟨made, hmade⟩ := hst
  have hplan := Assembly.relaxed_shiftAll st.assembly (st.assembly.system s).nodes d
  have hsystem : st'.assembly.system s = st.assembly.system s := by
    rw [hshift, Assembly.shift, hplan.system]
  have hcap' : 1 ≤ (st'.assembly.config (st'.assembly.system s).config).cap := by
    rw [hsystem, hshift, Assembly.shift, hplan.config]
    exact hcap
  have hregistrations (n : NodeId) : st'.assembly.registrations (st'.assembly.system s).constraints n =
      st.assembly.registrations (st.assembly.system s).constraints n := by
    unfold Assembly.registrations
    rw [hsystem, hshift, Assembly.shift]
    exact List.countP_congr fun c _ => by rw [hplan.shape]
  have hconcur := concur_correct_shifted s d hmade hsighted
  rw [← hshift] at hconcur
  have hend := hconcur.at_sessions
  refine ⟨hend.answer_eq, fun n hn => ?_⟩
  -- both runs are rolled back, which gives a node its place and what it had of its boost, or the nodes end abreast
  rcases hend.rolled_back_or with ⟨hfailed, hfailed'⟩ | habreast
  · obtain ⟨hx, hy⟩ := (runs_correct_placed st s hcap).at_session hfailed n
    obtain ⟨hx', hy'⟩ := (runs_correct_placed st' s hcap').at_session hfailed' n
    have hboost := (runs_correct_boost st s hcap n).at_session hfailed
    have hboost' := (runs_correct_boost st' s hcap' n).at_session hfailed'
    have hnode : st'.assembly.node n = (st.assembly.node n).shift d := by
      rw [hshift]
      exact hmade.node_shift hn
    rw [hx, hy, hx', hy', hboost, hboost', hregistrations, hnode, Node.clearBoost_shift]
    exact ⟨rfl, rfl, rfl⟩
  · have hnode : ((correct s).after st').assembly.node n = (((correct s).after st).assembly.node n).shift d :=
      habreast.node n hn
    rw [hnode]
    exact ⟨rfl, rfl, rfl⟩

/-- A session with a bar of length five that has to shrink by one. -/
noncomputable def longBar : Session ℝ :=
  run [.newSystem none, .node 0 0 0 { base := some true }, .node 0 5 0 {},
    .pair 0 0 1 { length := some (.number (.int 4)) }] ⟨.empty ⟨.int 256, 1 / 5, 5⟩, .empty Level.warning⟩

theorem correct_shifted_bar :
    (correct 0).answer ⟨longBar.assembly.shift 0 ⟨5, -1⟩, longBar.journal⟩ = (correct 0).answer longBar ∧
      (((correct 0).after ⟨longBar.assembly.shift 0 ⟨5, -1⟩, longBar.journal⟩).assembly.node 1).x =
        (((correct 0).after longBar).assembly.node 1).x + 5 := by
  have hcoherent : ∃ made, Coherent made longBar.assembly :=
    ⟨_, coherent_run_empty (genuine_of_references (by simp [Operation.references, Spec.references]))⟩
  have hsighted : ∀ c ∈ (longBar.assembly.system 0).constraints,
      ∀ t ∈ (longBar.assembly.constraint c).targets, t.OwnSighted := by
    have hconstraints : (longBar.assembly.system 0).constraints = [0] := rfl
    have htargets : (longBar.assembly.constraint 0).targets = [.fixed 4] := rfl
    rw [hconstraints]
    intro c hc
    obtain rfl := List.mem_singleton.mp hc
    rw [htargets]
    rintro t ht
    obtain rfl := List.mem_singleton.mp ht
    exact Target.ifCallable_of_not_callable rfl
  obtain ⟨hanswer, hnodes⟩ := correct_shifted longBar 0 ⟨5, -1⟩ hcoherent (by decide) hsighted
    ⟨longBar.assembly.shift 0 ⟨5, -1⟩, longBar.journal⟩ rfl
  exact ⟨hanswer, (hnodes 1 (by decide)).1⟩

end Act

end Linkage
