import Linkage.Proofs.Atomicity
import Linkage.Proofs.Handling
import Linkage.Proofs.Registry
import Linkage.Proofs.Repetition

/-!
# Linkage.Proofs.Sparing — what solving may move

A run prepares, corrects and, where it fails, puts back.  In exact arithmetic all three leave base nodes entirely as they
are and every node that no constraint moves in its place (`Spares`).  The last of the three rests on what the constraints
saved: a base node is saved as it is, since preparing does nothing to it, and so it is put back as it is
(`node_restoreAll_of_base`).  As a preorder the relation passes from one call to any number of them, whatever
became of each (`run_spares`).
-/

namespace Linkage

namespace Act

variable {α : Type} [Scalar α] {R : Assembly α → Assembly α → Prop} [IsPreorder (Assembly α) R]
  {cs : List ConstraintId}

/-! ### From corrections to sweeps -/

theorem keeps_correctAll (h : ∀ c ∈ cs, Keeps R (correctOne c)) : Keeps R (correctAll cs) := by
  induction cs with
  | nil => exact keeps_pure true
  | cons c rest ih =>
    obtain ⟨hc, hrest⟩ := List.forall_mem_cons.mp h
    exact hc.bind fun met => (ih hrest).bind fun restMet => keeps_pure _

/-- What preparations and corrections keep to, sweeps in a row keep to. -/
theorem keeps_sweepsFrom (hprepare : ∀ first a, R a (a.prepareAll first cs))
    (hcorrect : ∀ c ∈ cs, Keeps R (correctOne c)) (s : SystemId) (left done : Nat) :
    Keeps R (sweepsFrom s cs left done) := by
  have hsweep : Keeps R (sweep (done == 0) cs) :=
    (keeps_change (hprepare _)).bind fun _ => keeps_correctAll hcorrect
  induction left generalizing done with
  | zero => exact keeps_pure _
  | succ left ih =>
    have hlater := ih (done + 1) ((keeps_change (hprepare _)).bind fun _ => keeps_correctAll hcorrect)
    refine hsweep.bind fun met => keeps_read fun a => ?_
    split
    · exact runs_after_report (runs_pure (refl_of R a))
    · split
      · exact runs_pure (refl_of R a)
      · exact hlater a

/-- What preparations, corrections and restorations keep to, runs keep to. -/
theorem keeps_correct (hprepare : ∀ first cs a, R a (a.prepareAll first cs)) (hcorrect : ∀ c, Keeps R (correctOne c))
    (hrestore : ∀ cs a, R a (a.restoreAll cs)) (s : SystemId) : Keeps R (correct s) := by
  have hrollback : Keeps R (rollback s) := Keeps.traced (keeps_read fun a => runs_change (hrestore _ a))
  refine Keeps.traced (keeps_read fun a => ?_)
  refine Keeps.bind (Keeps.outcome (keeps_sweepsFrom (fun first => hprepare first _) (fun c _ => hcorrect c) s _ _))
    (fun verdict => ?_) a
  cases verdict with
  | error fault => exact hrollback.bind fun _ => keeps_throw fault
  | ok verdict =>
    cases verdict with
    | unmet done => exact hrollback.bind fun _ => (keeps_report _ _ _).bind fun _ => keeps_pure 0
    | met done => exact (keeps_report _ _ _).bind fun _ => keeps_pure done

/-- What the sweeps of a run leave, and rolling back leaves of that, is what the run may leave. -/
theorem runs_correct_of_sweeps {s : SystemId} {a : Assembly α} {P : Assembly α → Prop}
    (h : Runs (sweepsFrom s (a.system s).constraints (a.config (a.system s).config).cap 0) a
      fun _ b => P b ∧ P (b.restoreAll (b.system s).constraints)) : Runs (correct s) a fun _ b => P b := by
  refine runs_traced (runs_read (runs_bind (runs_outcome (h.mono fun r b ⟨hmet, hundone⟩ => ?_))))
  rw [then_ok]
  cases r with
  | error fault => exact runs_after_rollback (runs_throw hundone)
  | ok verdict =>
    cases verdict with
    | unmet done => exact runs_after_rollback (runs_after_report (runs_pure hundone))
    | met done => exact runs_after_report (runs_pure hmet)

end Act

namespace Assembly

/-- `b` is `a` after runs over constraints of a list: base nodes are as they were, and a node that no constraint of the
list moves is in its place. -/
structure Spares (cs : List ConstraintId) (a b : Assembly ℝ) : Prop extends SamePlan a b where
  base : ∀ n, (a.node n).base = true → b.node n = a.node n
  placed : ∀ n, (∀ c ∈ cs, ¬(a.constraint c).Moves n) → Placed a b n

variable {cs : List ConstraintId} {o a b : Assembly ℝ} {c : ConstraintId} {n : NodeId}

theorem SamePlan.moves_iff (h : SamePlan a b) : (b.constraint c).Moves n ↔ (a.constraint c).Moves n := by
  unfold Constraint.Moves
  rw [h.shape, h.lengthTarget, h.angleTarget]

instance (cs : List ConstraintId) : IsPreorder (Assembly ℝ) (Spares cs) where
  refl a := ⟨.refl a, fun _ _ => rfl, fun _ _ => ⟨rfl, rfl⟩⟩
  trans a b c h h' := by
    refine ⟨h.toSamePlan.trans h'.toSamePlan, fun n hbase => ?_, fun n hn => ?_⟩
    · have hb := h.base n hbase
      rw [h'.base n (by rwa [hb]), hb]
    · have hfirst := h.placed n hn
      have hsecond := h'.placed n fun d hd => by rw [h.moves_iff]; exact hn d hd
      exact ⟨hsecond.1.trans hfirst.1, hsecond.2.trans hfirst.2⟩

theorem Tended.spares (h : Tended cs a b) : Spares cs a b where
  toSamePlan := h.samePlan
  base n := (h.handled n).base
  placed n hn := by
    unfold Placed
    rw [h.outside n hn]
    exact ⟨rfl, rfl⟩

/-- Measuring moves nothing. -/
theorem Corrected.spares (h : Corrected [] a b) : Spares cs a b where
  toSamePlan := h.samePlan
  base n _ := h.outside n List.not_mem_nil
  placed n _ := by
    unfold Placed
    rw [h.outside n List.not_mem_nil]
    exact ⟨rfl, rfl⟩

theorem clearBoost_of_base {v : Node ℝ} (h : v.base = true) : v.clearBoost = v := if_pos h

theorem spares_prepareAll (cs : List ConstraintId) (first : Bool) (a : Assembly ℝ) : Spares cs a (a.prepareAll first cs) where
  toSamePlan := (relaxed_prepareAll first cs a).toSamePlan
  base n hbase := by
    rw [node_prepareAll, clearBoost_of_base hbase, ite_self]
  placed n _ := by
    unfold Placed
    rw [node_prepareAll]
    split
    · unfold Node.clearBoost
      split
      · exact ⟨rfl, rfl⟩
      · exact ⟨rfl, rfl⟩
    · exact ⟨rfl, rfl⟩

/-! ### Putting base nodes back -/

/-- What the constraint saved of base nodes is how they are in `o`. -/
def SavesBases (o a : Assembly ℝ) (c : ConstraintId) : Prop := ∀ v ∈ (a.constraint c).saved,
  (o.node v.node).base = true → v = ⟨v.node, (o.node v.node).x, (o.node v.node).y, (o.node v.node).boost⟩

theorem SavesBases.of_constraint (h : SavesBases o a c) (hc : b.constraint c = a.constraint c) : SavesBases o b c := by
  unfold SavesBases
  rw [hc]
  exact h

theorem prepareAll_savesBases (a : Assembly ℝ) (cs : List ConstraintId) :
    ∀ c ∈ cs, SavesBases a (a.prepareAll true cs) c := by
  induction cs using List.reverseRecOn with
  | nil => exact fun c hc => absurd hc List.not_mem_nil
  | append_singleton rest c ih =>
    intro d hd v hv hbase
    rw [prepareAll_concat, saved_prepare] at hv
    split at hv
    case isTrue =>
      obtain ⟨n, -, rfl⟩ := List.mem_map.mp hv
      rw [(spares_prepareAll rest true a).base n hbase]
    case isFalse hcd =>
      have hd : d ∈ rest := (List.mem_append.mp hd).resolve_right fun h => hcd (List.mem_singleton.mp h).symm
      exact ih d hd v hv hbase

/-- Replaying what was saved of a base node leaves it as it is. -/
theorem node_restore_of_base (hsaves : SavesBases o a c) (hbase : (o.node n).base = true)
    (hn : a.node n = o.node n) : (a.restore c).node n = o.node n := by
  unfold restore
  unfold SavesBases at hsaves
  generalize (a.constraint c).saved = saved at hsaves
  induction saved generalizing a with
  | nil => exact hn
  | cons v rest ih =>
    obtain ⟨hv, hrest⟩ := List.forall_mem_cons.mp hsaves
    refine ih ?_ hrest
    rw [node_setNode]
    split
    case isTrue hvn =>
      subst hvn
      rw [hv hbase, hn]
    case isFalse => exact hn

theorem node_restoreAll_of_base (hsaves : ∀ c ∈ cs, SavesBases o a c) (hbase : (o.node n).base = true)
    (hn : a.node n = o.node n) : (a.restoreAll cs).node n = o.node n := by
  unfold restoreAll
  induction cs generalizing a with
  | nil => exact hn
  | cons c rest ih =>
    obtain ⟨hc, hrest⟩ := List.forall_mem_cons.mp hsaves
    exact ih (fun d hd => (hrest d hd).of_constraint (constraint_restore a c d)) (node_restore_of_base hc hbase hn)

end Assembly

namespace Act

open Assembly (Corrected Placed SavesBases Spares)

variable {cs : List ConstraintId} {a : Assembly ℝ} {s : SystemId}

/-! ### Runs -/

theorem spares_correctOne {c : ConstraintId} (hc : c ∈ cs) : Keeps (Spares cs) (correctOne c) := fun a =>
  (keeps_correctOne hc a).mono fun _ _ h => h.spares

/-- Sweeps spare what they may not move, and so does rolling back after them. -/
theorem runs_sweepsFrom_spares (s : SystemId) (a : Assembly ℝ) (left : Nat) :
    Runs (sweepsFrom s (a.system s).constraints (left + 1) 0) a fun _ b =>
      Spares (a.system s).constraints a b ∧
        Spares (a.system s).constraints a (b.restoreAll (b.system s).constraints) := by
  have hsweeps : Keeps (Spares (a.system s).constraints) (sweepsFrom s (a.system s).constraints (left + 1) 0) :=
    keeps_sweepsFrom (fun first a => Assembly.spares_prepareAll _ first a) (fun c hc => spares_correctOne hc) s _ _
  refine (((hsweeps a).and runs_sweepsFrom).and (runs_sweepsFrom_undoable s a left)).mono
    fun r b ⟨⟨hspares, hcorrected⟩, hundoable⟩ => ⟨hspares, ?_⟩
  have hrestored := (Assembly.relaxed_restoreAll (b.system s).constraints b).toSamePlan
  refine ⟨hspares.toSamePlan.trans hrestored, fun n hbase => ?_, fun n _ => hundoable n⟩
  refine Assembly.node_restoreAll_of_base (fun c hc => ?_) hbase (hspares.base n hbase)
  rw [hspares.system] at hc
  exact (Assembly.prepareAll_savesBases a _ c hc).of_constraint (hcorrected.constraint c)

theorem runs_correct_spares (hcap : 1 ≤ (a.config (a.system s).config).cap) :
    Runs (correct s) a fun _ b => Spares (a.system s).constraints a b := by
  obtain ⟨left, hleft⟩ : ∃ left, (a.config (a.system s).config).cap = left + 1 :=
    ⟨_, (Nat.sub_add_cancel hcap).symm⟩
  refine runs_correct_of_sweeps ?_
  rw [hleft]
  exact runs_sweepsFrom_spares s a left

theorem runs_solve_spares (hcap : 1 ≤ (a.config (a.system s).config).cap) (limit : Option Int) :
    Runs (solve s limit) a fun _ b => Spares (a.system s).constraints a b := by
  refine runs_traced_given (fun _ _ _ => refl_of _ a)
    (runs_bind ((runs_correct_spares hcap).mono fun _ b hab => then_of_rel hab fun iterations => ?_))
  refine runs_bind ((keeps_residuals s b).mono fun _ b' hbb' => then_of_rel hbb'.spares fun ranked => ?_)
  exact runs_read (runs_pure (refl_of _ b'))

theorem runs_solveAnnounced_spares (hcap : 1 ≤ (a.config (a.system s).config).cap) :
    Runs (solveAnnounced s) a fun _ b => Spares (a.system s).constraints a b := by
  refine runs_read (runs_after_report (runs_bind ((runs_solve_spares hcap none).mono
    fun _ b hab => then_of_rel hab fun r => ?_)))
  exact runs_after_report (runs_pure (refl_of _ b))

end Act

/-- The operation relaxes the system, or corrects one of the constraints. -/
def Operation.Relaxes (s : SystemId) (cs : List ConstraintId) : Operation ℝ → Prop
  | .correct t | .solve t _ | .solveAnnounced t => t = s
  | .correctOne c => c ∈ cs
  | _ => False

open Act
open Assembly (Placed Spares)

theorem Operation.Relaxes.spares {op : Operation ℝ} {st : Session ℝ} {s : SystemId}
    (h : op.Relaxes s (st.assembly.system s).constraints)
    (hcap : 1 ≤ (st.assembly.config (st.assembly.system s).config).cap) :
    Spares (st.assembly.system s).constraints st.assembly (op.after st).assembly := by
  cases op with
  | correct t =>
    subst h
    exact (runs_correct_spares hcap).at_session
  | solve t limit =>
    subst h
    exact (runs_solve_spares hcap limit).at_session
  | solveAnnounced t =>
    subst h
    exact (runs_solveAnnounced_spares hcap).at_session
  | correctOne c => exact (spares_correctOne h st.assembly).at_session
  | _ => exact h.elim

/-- Relaxing over and over, whatever becomes of each call. -/
theorem spares_run {s : SystemId} {ops : List (Operation ℝ)} {st : Session ℝ}
    (hcap : 1 ≤ (st.assembly.config (st.assembly.system s).config).cap)
    (hops : ∀ op ∈ ops, op.Relaxes s (st.assembly.system s).constraints) :
    Spares (st.assembly.system s).constraints st.assembly (run ops st).assembly := by
  induction ops generalizing st with
  | nil => exact refl_of _ st.assembly
  | cons op rest ih =>
    obtain ⟨hop, hrest⟩ := List.forall_mem_cons.mp hops
    have hfirst := hop.spares hcap
    have hlater := @ih (op.after st) (by rwa [hfirst.system, hfirst.config])
      (by rw [hfirst.system]; exact hrest)
    rw [hfirst.system] at hlater
    exact trans_of _ hfirst hlater

theorem Constraint.Moves.mem {α : Type} {k : Constraint α} {n : NodeId} (h : k.Moves n) : n ∈ k.shape.nodes := by
  unfold Constraint.Moves at h
  cases hshape : k.shape with
  | pair first second direction =>
    rw [hshape] at h
    simpa [Shape.nodes] using h.1
  | triple apex ray arm =>
    rw [hshape] at h
    simp [Shape.nodes, h.1]

/-- Over any number of runs, solves and corrections of single constraints of a system, in exact arithmetic and whatever
becomes of each: a base node is left as it is, and a node that is not in its place any more is no base node, is
registered in the system, and is an end of one of its pairs with a target or the arm of one of its triples with one. -/
theorem run_spares (st : Session ℝ) (hst : st.assembly.Consistent) (s : SystemId)
    (hvalid : (st.assembly.config (st.assembly.system s).config).Valid) (ops : List (Operation ℝ))
    (hops : ∀ op ∈ ops, op.Relaxes s (st.assembly.system s).constraints) (n : NodeId) :
    ((st.assembly.node n).base = true → (run ops st).assembly.node n = st.assembly.node n) ∧
    (¬Placed st.assembly (run ops st).assembly n →
      (st.assembly.node n).base = false ∧ n ∈ (st.assembly.system s).nodes ∧
        ∃ c ∈ (st.assembly.system s).constraints, (st.assembly.constraint c).Moves n) := by
  have hspares := spares_run hvalid.1 hops
  refine ⟨hspares.base n, fun hmoved => ?_⟩
  have hfree : (st.assembly.node n).base = false := by
    by_contra hbase
    refine hmoved ?_
    unfold Placed
    rw [hspares.base n (by simpa using hbase)]
    exact ⟨rfl, rfl⟩
  obtain ⟨c, hc, hmoves⟩ : ∃ c ∈ (st.assembly.system s).constraints, (st.assembly.constraint c).Moves n := by
    by_contra hnone
    push Not at hnone
    exact hmoved (hspares.placed n hnone)
  exact ⟨hfree, hst.listed s c hc hmoves.mem, c, hc, hmoves⟩

/-- The ends of the slanted system that are fixed, however often it is relaxed. -/
theorem run_spares_slanted : (run [.correct 0, .correctOne 1, .solve 0 none] slantedSession).assembly.node 2 =
    slantedSession.assembly.node 2 := by
  have hconsistent : slantedSession.assembly.Consistent := consistent_run (Assembly.consistent_empty _) _
  have hvalid : (⟨.int 256, 1, 1000000⟩ : Config ℝ).Valid := ⟨by decide, zero_lt_one, by norm_num⟩
  have hops : ∀ op ∈ ([.correct 0, .correctOne 1, .solve 0 none] : List (Operation ℝ)), op.Relaxes 0 [0, 1] := by
    simp [Operation.Relaxes]
  exact (run_spares slantedSession hconsistent 0 hvalid [.correct 0, .correctOne 1, .solve 0 none] hops 2).1 rfl

end Linkage
