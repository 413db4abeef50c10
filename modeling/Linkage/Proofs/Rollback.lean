import Linkage.Config.Standard
import Linkage.Proofs.Convergence
import Linkage.System.Registry
import Linkage.System.Settings
import Mathlib.Data.List.Induction

/-!
# Linkage.Proofs.Rollback — a run that fails leaves every node in its place

There is no snapshot of a system: every constraint saves the states of its own nodes, one after the other, before the
first sweep, and a failed run replays these lists in order.  A shared node is saved several times, always with the
position that it had before the run (`prepareAll_saves`), because preparing clears boosts and moves nothing.  So
replaying the lists puts every node of the constraints back (`placed_restoreAll`), wherever the run was when it failed,
and no other node had moved.
-/

namespace Linkage

variable {α : Type} [Scalar α]

namespace Assembly

/-- A node has the position in `a` that it has in `o`. -/
def Placed (o a : Assembly α) (n : NodeId) : Prop := (a.node n).x = (o.node n).x ∧ (a.node n).y = (o.node n).y

/-- A constraint saved its nodes, with the positions that they have in `o`. -/
structure Saves (o a : Assembly α) (c : ConstraintId) : Prop where
  nodes : (a.constraint c).saved.map Saved.node = (a.constraint c).shape.nodes
  places : ∀ v ∈ (a.constraint c).saved, v.x = (o.node v.node).x ∧ v.y = (o.node v.node).y

/-- Two assemblies with equal constraints have saved the same. -/
theorem Saves.of_constraint {o a b : Assembly α} {c : ConstraintId} (h : Saves o a c)
    (hc : b.constraint c = a.constraint c) : Saves o b c :=
  ⟨by rw [hc]; exact h.nodes, by rw [hc]; exact h.places⟩

/-! ### Preparing -/

/-- Clearing the boosts of nodes moves nothing. -/
theorem placed_clearBoosts (a : Assembly α) (nodes : List NodeId) (n : NodeId) : Placed a (a.clearBoosts nodes) n := by
  unfold clearBoosts
  induction nodes generalizing a with
  | nil => exact ⟨rfl, rfl⟩
  | cons m rest ih =>
    have hrest := ih (a.setNode m (a.node m).clearBoost)
    have hstep : Placed a (a.setNode m (a.node m).clearBoost) n := by
      unfold Placed
      rw [node_setNode]
      split
      case isTrue hmn =>
        subst hmn
        unfold Node.clearBoost
        split
        · exact ⟨rfl, rfl⟩
        · exact ⟨rfl, rfl⟩
      case isFalse => exact ⟨rfl, rfl⟩
    exact ⟨hrest.1.trans hstep.1, hrest.2.trans hstep.2⟩

/-- The first preparation of a constraint moves nothing; the constraint saves its nodes, and the others keep what they
saved. -/
theorem prepare_saves {o a : Assembly α} (hplaced : ∀ n, Placed o a n) (c : ConstraintId) :
    (∀ n, Placed o (a.prepare true c) n) ∧ Saves o (a.prepare true c) c ∧
      ∀ d, Saves o a d → Saves o (a.prepare true c) d := by
  rw [prepare_eq, if_pos rfl]
  have hmoved := placed_clearBoosts (a.save c) (a.constraint c).shape.nodes
  have hconstraint (d : ConstraintId) :
      ((a.save c).clearBoosts (a.constraint c).shape.nodes).constraint d = (a.save c).constraint d :=
    (corrected_clearBoosts (List.Subset.refl _) _).constraint d
  -- the nodes are saved before their boosts are cleared, in the places where they are
  have hsaves : Saves o (a.save c) c := by
    unfold save
    constructor
    · simp [Function.comp_def]
    · intro v hv
      simp only [constraint_setConstraint, if_true, List.mem_map] at hv
      obtain ⟨n, -, rfl⟩ := hv
      exact hplaced n
  refine ⟨fun n => ?_, hsaves.of_constraint (hconstraint c), fun d hd => ?_⟩
  · exact ⟨(hmoved n).1.trans (hplaced n).1, (hmoved n).2.trans (hplaced n).2⟩
  · by_cases hcd : c = d
    · subst hcd
      exact hsaves.of_constraint (hconstraint c)
    · refine hd.of_constraint ((hconstraint d).trans ?_)
      unfold save
      rw [constraint_setConstraint, if_neg hcd]

/-- After the first preparation of a system, nothing has moved and every constraint has saved its nodes. -/
theorem prepareAll_saves (a : Assembly α) (constraints : List ConstraintId) :
    (∀ n, Placed a (a.prepareAll true constraints) n) ∧
      ∀ c ∈ constraints, Saves a (a.prepareAll true constraints) c := by
  -- from the front: what the first constraints have saved is still there after the next one is prepared
  induction constraints using List.reverseRecOn with
  | nil => exact ⟨fun n => ⟨rfl, rfl⟩, fun c hc => absurd hc List.not_mem_nil⟩
  | append_singleton rest c ih =>
    obtain ⟨hplaced, hsaves⟩ := ih
    obtain ⟨hplaced', hlast, hothers⟩ := prepare_saves hplaced c
    have hconcat : a.prepareAll true (rest ++ [c]) = (a.prepareAll true rest).prepare true c := by
      unfold prepareAll
      rw [List.foldl_append]
      rfl
    rw [hconcat]
    refine ⟨hplaced', fun d hd => ?_⟩
    rcases List.mem_append.mp hd with hd | hd
    · exact hothers d (hsaves d hd)
    · rw [List.mem_singleton.mp hd]
      exact hlast

/-! ### Restoring -/

/-- Replaying saved states puts their nodes back, and takes no node from its place. -/
theorem placed_replay {o : Assembly α} {saved : List (Saved α)}
    (hsaved : ∀ v ∈ saved, v.x = (o.node v.node).x ∧ v.y = (o.node v.node).y) {a : Assembly α} {n : NodeId}
    (hn : n ∈ saved.map Saved.node ∨ Placed o a n) :
    Placed o (saved.foldl (fun a s =>
      a.setNode s.node { a.node s.node with x := s.x, y := s.y, boost := s.boost }) a) n := by
  -- a node that is still to be replayed will be put back, and one that is in its place stays there
  induction saved generalizing a with
  | nil => exact hn.resolve_left List.not_mem_nil
  | cons v rest ih =>
    refine ih (fun w hw => hsaved w (List.mem_cons_of_mem v hw)) ?_
    by_cases hvn : v.node = n
    · right
      unfold Placed
      rw [node_setNode, if_pos hvn]
      subst hvn
      exact hsaved v List.mem_cons_self
    · rcases hn with hn | hn
      · exact Or.inl ((List.mem_cons.mp hn).resolve_left (Ne.symm hvn))
      · right
        unfold Placed
        rw [node_setNode, if_neg hvn]
        exact hn

theorem placed_restore {o a : Assembly α} {c : ConstraintId} (hc : Saves o a c) {n : NodeId}
    (hn : n ∈ (a.constraint c).shape.nodes ∨ Placed o a n) : Placed o (a.restore c) n :=
  placed_replay hc.places (by rwa [hc.nodes])

theorem constraint_restore (a : Assembly α) (c d : ConstraintId) : (a.restore c).constraint d = a.constraint d := by
  unfold restore
  generalize (a.constraint c).saved = saved
  induction saved generalizing a with
  | nil => rfl
  | cons v rest ih => exact (ih _).trans (constraint_setNode ..)

/-- Where all constraints of a list have saved their nodes, restoring them puts these nodes back, and takes no node
from its place. -/
theorem placed_restoreAll {o a : Assembly α} {constraints : List ConstraintId}
    (hsaves : ∀ c ∈ constraints, Saves o a c) {n : NodeId} (hn : n ∈ a.nodesOf constraints ∨ Placed o a n) :
    Placed o (a.restoreAll constraints) n := by
  unfold restoreAll
  induction constraints generalizing a with
  | nil => exact hn.resolve_left List.not_mem_nil
  | cons c rest ih =>
    have hsame := constraint_restore a c
    refine ih (fun d hd => (hsaves d (List.mem_cons_of_mem c hd)).of_constraint (hsame d)) ?_
    have hnodes : (a.restore c).nodesOf rest = a.nodesOf rest := by
      unfold nodesOf
      simp only [hsame]
    rw [hnodes]
    have hc : n ∈ (a.constraint c).shape.nodes ∨ Placed o a n → Placed o (a.restore c) n :=
      placed_restore (hsaves c List.mem_cons_self)
    rcases hn with hn | hn
    · rcases List.mem_append.mp hn with hn | hn
      · exact Or.inr (hc (Or.inl hn))
      · exact Or.inl hn
    · exact Or.inr (hc (Or.inr hn))

end Assembly

namespace Act

open Assembly (Corrected Placed Saves)

/-! ### Failed runs -/

/-- What the sweeps leave can be rolled back: every node is in its place or has it saved. -/
def Undoable (o : Assembly α) (s : SystemId) (b : Assembly α) : Prop :=
  ∀ n, Placed o (b.restoreAll (b.system s).constraints) n

theorem runs_sweepsFrom_undoable (s : SystemId) (a : Assembly α) (left : Nat) :
    Runs (sweepsFrom s (a.system s).constraints (left + 1) 0) a fun _ b => Undoable a s b := by
  refine runs_sweepsFrom.mono fun _ b hb n => ?_
  have hplan := (Assembly.relaxed_prepareAll true (a.system s).constraints a).toSamePlan
  obtain ⟨hplaced, hsaves⟩ := Assembly.prepareAll_saves a (a.system s).constraints
  have hsystem : (b.system s).constraints = (a.system s).constraints := by rw [hb.system, hplan.system]
  rw [hsystem]
  refine Assembly.placed_restoreAll (fun c hc => (hsaves c hc).of_constraint (hb.constraint c)) ?_
  by_cases hn : n ∈ a.nodesOf (a.system s).constraints
  · left
    rwa [hb.samePlan.nodesOf, hplan.nodesOf]
  · right
    unfold Placed
    rw [hb.outside n hn]
    exact hplaced n

/-- A run that may sweep at all and does not meet every constraint, for whatever reason, leaves every node in the place
that it had before. -/
theorem correct_restores (st : Session α) (s : SystemId)
    (hcap : 1 ≤ (st.assembly.config (st.assembly.system s).config).cap)
    (hfailed : (correct s).answer st = .ok 0 ∨ ∃ fault, (correct s).answer st = .error fault) (n : NodeId) :
    (((correct s).after st).assembly.node n).x = (st.assembly.node n).x ∧
      (((correct s).after st).assembly.node n).y = (st.assembly.node n).y := by
  suffices hruns : Runs (correct s) st.assembly fun r b =>
      (r = .ok 0 ∨ ∃ fault, r = .error fault) → ∀ n, Placed st.assembly b n from hruns.at_session hfailed n
  refine runs_traced (runs_read ?_)
  obtain ⟨left, hleft⟩ : ∃ left, (st.assembly.config (st.assembly.system s).config).cap = left + 1 :=
    ⟨_, (Nat.sub_add_cancel hcap).symm⟩
  dsimp only
  rw [hleft]
  have hsweeps := (runs_sweepsFrom_undoable s st.assembly left).and
    (runs_sweepsFrom_counts s (st.assembly.system s).constraints (left + 1) 0 st (.refl _))
  refine runs_bind (runs_outcome (hsweeps.mono fun r b ⟨hundo, hcounts⟩ => ?_))
  rw [then_ok]
  cases r with
  | error fault => exact runs_after_rollback (runs_throw fun _ => hundo)
  | ok verdict =>
    cases verdict with
    | unmet done => exact runs_after_rollback (runs_after_report (runs_pure fun _ => hundo))
    | met done =>
      refine runs_after_report (runs_pure fun h => ?_)
      -- a run that met every constraint has counted a sweep
      obtain ⟨k, rfl, -, hconverges⟩ := (hcounts.counted done).mp rfl
      have hpos := hconverges.pos
      rcases h with h | ⟨fault, h⟩
      · simp only [Except.ok.injEq] at h
        omega
      · exact nomatch h

/-- A session with two bars on one line that pull their common joint to different places, and three sweeps for it. -/
def tornSession : Session Float :=
  let build : Act Float Unit := do
    let s ← newSystem (some (← newConfig ⟨.int 3, 0.1, 1000000.0⟩))
    let left ← node s 0 0 { base := some true }
    let right ← node s 10 0 { base := some true }
    let joint ← node s 4 0 {}
    discard <| pair s left joint { length := some (.number (.int 5)) }
    discard <| pair s joint right { length := some (.number (.int 7)) }
  build.after ⟨.empty .standard, .empty Level.warning⟩

theorem correct_restores_torn :
    1 ≤ (tornSession.assembly.config (tornSession.assembly.system 0).config).cap ∧
      (correct 0).answer tornSession = .ok 0 ∧
      (((correct 0).after tornSession).assembly.node 2).x = (tornSession.assembly.node 2).x ∧
      (((correct 0).after tornSession).assembly.node 2).y = (tornSession.assembly.node 2).y := by
  have hcap : 1 ≤ (tornSession.assembly.config (tornSession.assembly.system 0).config).cap := by decide +kernel
  have hanswer : (correct 0).answer tornSession = .ok 0 := eq_ok_of_toOption (by decide +kernel)
  exact ⟨hcap, hanswer, correct_restores tornSession 0 hcap (Or.inl hanswer) 2⟩

end Act

end Linkage
