import Linkage.Proofs.Exact
import Linkage.Proofs.Halves
import Linkage.Proofs.Working

/-!
# Linkage.Proofs.Handling — what corrections leave of nodes, whether they fail or not

A pass can fail half way and keeps its nodes as it leaves them then, so that whatever is to hold throughout a run has to
hold of both outcomes (`Pass.Leaves`).  In exact arithmetic a pass works on nodes and does nothing to base nodes: what
protects these is their share of the correction alone, which is zero because their inverse mass is (`Ends.spared`).  So
correcting constraints leaves every base node as it is, and every node that none of them `Moves` (`keeps_correctOne`).
-/

namespace Linkage

/-! ### Passes that may fail -/

section Pass

variable {α σ β γ : Type} {pass : Pass α σ β} {f : β → Pass α σ γ} {s t : σ} {P Q : σ → Prop}

/-- Run on `s`, the pass leaves nodes that satisfy `Q`, whether it fails or not. -/
def Pass.Leaves (pass : Pass α σ β) (s : σ) (Q : σ → Prop) : Prop :=
  match pass s with
  | .ok _ t => Q t
  | .error _ t => Q t

theorem Pass.leaves_then {x : β} (h : pass s = .ok x t) (hf : (f x).Leaves t Q) : (pass >>= f).Leaves s Q := by
  unfold Leaves
  rw [Pass.then_ok h]
  exact hf

theorem Pass.leaves_bind (h : pass.Leaves s P) (hf : ∀ x t, P t → (f x).Leaves t Q) (hQ : ∀ t, P t → Q t) :
    (pass >>= f).Leaves s Q := by
  unfold Leaves at h ⊢
  simp only [bind, EStateM.bind]
  cases hpass : pass s with
  | ok x t =>
    rw [hpass] at h
    exact hf x t h
  | error fault t =>
    rw [hpass] at h
    exact hQ t h

theorem Pass.Leaves.mono (h : pass.Leaves s P) (hPQ : ∀ t, P t → Q t) : pass.Leaves s Q := by
  unfold Leaves at h ⊢
  cases hpass : pass s with
  | ok x t =>
    rw [hpass] at h
    exact hPQ t h
  | error fault t =>
    rw [hpass] at h
    exact hPQ t h

/-- A computation that needs no nodes leaves them as they are where it fails. -/
theorem Pass.leaves_ofExcept {r : Except (Fault α) β} (hs : Q s) (hf : ∀ x, r = .ok x → (f x).Leaves s Q) :
    (Pass.ofExcept r >>= f).Leaves s Q := by
  cases r with
  | ok x => exact leaves_then rfl (hf x rfl)
  | error fault => exact hs

variable [Scalar α] {a : Assembly α} {R : Assembly α → Prop}

/-- The ends are put back as the pass leaves them. -/
theorem Act.runs_onEnds_leaves {first second : NodeId} {pass : Pass α (Ends α) β}
    (h : pass.Leaves ⟨a.node first, a.node second⟩ fun e => R ((a.setNode first e.first).setNode second e.second)) :
    Runs (onEnds first second pass) a fun _ b => R b := by
  refine runs_read ?_
  unfold Pass.Leaves at h
  cases hran : pass ⟨a.node first, a.node second⟩ with
  | ok x e =>
    rw [hran] at h
    exact runs_after_change (runs_pure h)
  | error fault e =>
    rw [hran] at h
    exact runs_after_change (runs_throw h)

/-- And so are the nodes of a corner. -/
theorem Act.runs_onCorner_leaves {apex ray arm : NodeId} {pass : Pass α (Corner α) β}
    (h : pass.Leaves ⟨a.node apex, a.node ray, a.node arm⟩ fun k =>
      R (((a.setNode apex k.apex).setNode ray k.ray).setNode arm k.arm)) :
    Runs (onCorner apex ray arm pass) a fun _ b => R b := by
  refine runs_read ?_
  unfold Pass.Leaves at h
  cases hran : pass ⟨a.node apex, a.node ray, a.node arm⟩ with
  | ok x k =>
    rw [hran] at h
    exact runs_after_change (runs_pure h)
  | error fault k =>
    rw [hran] at h
    exact runs_after_change (runs_throw h)

end Pass

/-! ### Nodes -/

/-- The node was worked on at most, and is as it was if it is a base node. -/
structure Node.Handled (v w : Node ℝ) : Prop where
  worked : v.Worked w
  base : v.base = true → w = v

namespace Node

variable {u v w : Node ℝ}

theorem handled_refl (v : Node ℝ) : v.Handled v := ⟨.start, fun _ => rfl⟩

theorem Handled.trans (h : u.Handled v) (h' : v.Handled w) : u.Handled w where
  worked := h.worked.trans h'.worked
  base hbase := by
    have hv := h.base hbase
    rw [h'.base (by rwa [hv]), hv]

theorem handled_addBoost (v : Node ℝ) : v.Handled v.addBoost :=
  ⟨.boosted .start, fun hbase => if_pos hbase⟩

theorem handled_clearBoost (v : Node ℝ) : v.Handled v.clearBoost :=
  ⟨.cleared .start, fun hbase => if_pos hbase⟩

theorem handled_moveTo {x y : ℝ} (h : v.base = true → x = v.x ∧ y = v.y) : v.Handled (v.moveTo x y) where
  worked := .moved x y .start
  base hbase := by
    obtain ⟨rfl, rfl⟩ := h hbase
    rfl

theorem inverseMass_of_base (h : v.base = true) : v.inverseMass = .ok 0 := if_pos h

end Node

/-! ### Shares -/

theorem share_of_zero_left {q : ℝ} {share : ℝ × ℝ} (h : shares 0 q = .ok share) : share.1 = 0 := by
  unfold shares at h
  dsimp only at h
  split at h
  case isTrue => cases h; rfl
  case isFalse =>
    obtain ⟨s₁, hs₁, h⟩ := ok_of_bind h
    obtain ⟨s₂, -, h⟩ := ok_of_bind h
    cases h
    rw [(Scalar.divide_eq_ok.mp hs₁).2]
    exact zero_div _

theorem share_of_zero_right {p : ℝ} {share : ℝ × ℝ} (h : shares p 0 = .ok share) : share.2 = 0 := by
  unfold shares at h
  dsimp only at h
  split at h
  case isTrue => cases h; rfl
  case isFalse =>
    obtain ⟨s₁, -, h⟩ := ok_of_bind h
    obtain ⟨s₂, hs₂, h⟩ := ok_of_bind h
    cases h
    rw [(Scalar.divide_eq_ok.mp hs₂).2]
    exact zero_div _

/-- Base nodes among the ends of a pair take no share. -/
structure Ends.Spared (e : Ends ℝ) (share : ℝ × ℝ) : Prop where
  first : e.first.base = true → share.1 = 0
  second : e.second.base = true → share.2 = 0

theorem Ends.spared {e : Ends ℝ} {share : ℝ × ℝ} (h : e.shares = .ok share) : e.Spared share := by
  obtain ⟨p, hp, h⟩ := ok_of_bind h
  obtain ⟨q, hq, h⟩ := ok_of_bind h
  refine ⟨fun hbase => ?_, fun hbase => ?_⟩
  · rw [Node.inverseMass_of_base hbase] at hp
    cases hp
    exact share_of_zero_left h
  · rw [Node.inverseMass_of_base hbase] at hq
    cases hq
    exact share_of_zero_right h

/-- A base node that is the arm of a triple takes no share. -/
theorem Corner.spared {k : Corner ℝ} {share : ℝ} (h : k.armShare = .ok share) (hbase : k.arm.base = true) :
    share = 0 := by
  obtain ⟨p, -, h⟩ := ok_of_bind h
  obtain ⟨q, hq, h⟩ := ok_of_bind h
  rw [Node.inverseMass_of_base hbase] at hq
  cases hq
  split at h
  case isTrue => exact (Except.ok.inj h).symm
  case isFalse =>
    rw [(Scalar.divide_eq_ok.mp h).2]
    exact zero_div _

/-! ### Passes -/

/-- Both ends were handled. -/
structure Ends.Handled (e e' : Ends ℝ) : Prop where
  first : e.first.Handled e'.first
  second : e.second.Handled e'.second

namespace Ends

variable {e e' e'' : Ends ℝ}

theorem handled_refl (e : Ends ℝ) : e.Handled e := ⟨Node.handled_refl _, Node.handled_refl _⟩

theorem Handled.trans (h : e.Handled e') (h' : e'.Handled e'') : e.Handled e'' :=
  ⟨h.first.trans h'.first, h.second.trans h'.second⟩

theorem handled_addBoost (e : Ends ℝ) : e.Handled e.addBoost :=
  ⟨Node.handled_addBoost _, Node.handled_addBoost _⟩

theorem Spared.handled_shift {share : ℝ × ℝ} (h : e.Spared share) (d : Vec ℝ) : e.Handled (e.shift share d) := by
  refine ⟨Node.handled_moveTo fun hbase => ?_, Node.handled_moveTo fun hbase => ?_⟩
  · rw [h.first hbase, zero_mul, zero_mul, add_zero, add_zero]
    exact ⟨rfl, rfl⟩
  · rw [h.second hbase, zero_mul, zero_mul, sub_zero, sub_zero]
    exact ⟨rfl, rfl⟩

/-- Ends that are shifted and boosted by what spares base nodes are handled. -/
theorem Spared.handled {share : ℝ × ℝ} (h : e.Spared share) (d : Vec ℝ) : e.Handled (e.shift share d).addBoost :=
  (h.handled_shift d).trans (handled_addBoost _)

end Ends

section Passes

variable {cfg : Config ℝ} {target : ℝ}

theorem reachPass_leaves {share : ℝ × ℝ} {e : Ends ℝ} (h : e.Spared share) :
    (reachPass cfg share).Leaves e e.Handled := by
  refine Pass.leaves_then (t := e) rfl ?_
  dsimp only
  split
  case isTrue =>
    refine Pass.leaves_ofExcept (Ends.handled_refl e) fun dx _ => ?_
    refine Pass.leaves_ofExcept (Ends.handled_refl e) fun dy _ => ?_
    exact Pass.leaves_then rfl (h.handled_shift ⟨dx, dy⟩)
  case isFalse => exact Ends.handled_refl e

theorem anglePass_leaves (direction : Direction) (e : Ends ℝ) :
    (anglePass cfg direction target).Leaves e e.Handled := by
  refine Pass.leaves_ofExcept (Ends.handled_refl e) fun heading _ => ?_
  refine Pass.leaves_then (t := e) rfl ?_
  refine Pass.leaves_ofExcept (Ends.handled_refl e) fun share hshare => ?_
  refine Pass.leaves_then rfl ?_
  have hspared : e.Spared share := Ends.spared hshare
  have hshift := hspared.handled_shift (direction.correction e.vector heading)
  -- the clamp works with the share from before the shift, which changes neither mass nor kind
  have hspared' : (e.shift share (direction.correction e.vector heading)).Spared share := ⟨hspared.first, hspared.second⟩
  refine Pass.leaves_bind (reachPass_leaves hspared') (fun pulled e' he' => ?_) fun e' he' => hshift.trans he'
  exact Pass.leaves_then rfl ((hshift.trans he').trans (Ends.handled_addBoost e'))

theorem lengthPass_leaves (e : Ends ℝ) : (lengthPass cfg target).Leaves e e.Handled := by
  refine Pass.leaves_then (t := e) rfl ?_
  dsimp only
  split
  case isTrue => exact Ends.handled_refl e
  case isFalse =>
    refine Pass.leaves_ofExcept (Ends.handled_refl e) fun u _ => ?_
    refine Pass.leaves_ofExcept (Ends.handled_refl e) fun share hshare => ?_
    refine Pass.leaves_then rfl ?_
    exact Pass.leaves_then rfl ((Ends.spared hshare).handled _)

theorem rayPass_leaves (cfg : Config ℝ) (target : ℝ) (k : Corner ℝ) : (rayPass cfg target).Leaves k fun k' =>
    k'.apex = k.apex ∧ k'.ray = k.ray ∧ k.arm.Handled k'.arm := by
  have hidle : k.apex = k.apex ∧ k.ray = k.ray ∧ k.arm.Handled k.arm := ⟨rfl, rfl, Node.handled_refl _⟩
  refine Pass.leaves_then (t := k) rfl ?_
  refine Pass.leaves_ofExcept hidle fun c _ => ?_
  refine Pass.leaves_ofExcept hidle fun s _ => ?_
  refine Pass.leaves_ofExcept hidle fun turn _ => ?_
  refine Pass.leaves_ofExcept hidle fun share hshare => ?_
  refine Pass.leaves_then rfl ⟨rfl, rfl, ?_⟩
  refine (Node.handled_moveTo fun hbase => ?_).trans (Node.handled_addBoost _)
  rw [Corner.spared hshare hbase, zero_mul, zero_mul, sub_zero, sub_zero]
  exact ⟨rfl, rfl⟩

end Passes

/-! ### Corrections -/

/-- Correcting the constraint may move the node: an end of a pair that wants something, or the arm of a triple that
wants an angle. -/
def Constraint.Moves {α : Type} (k : Constraint α) (n : NodeId) : Prop :=
  match k.shape with
  | .pair first second _ => (n = first ∨ n = second) ∧ (k.lengthTarget.isSome ∨ k.angleTarget.isSome)
  | .triple _ _ arm => n = arm ∧ k.angleTarget.isSome

namespace Assembly

/-- `b` is `a` after corrections of constraints from a list, whether these failed or not: nodes were handled, and only
those that some constraint of the list moves. -/
structure Tended (cs : List ConstraintId) (a b : Assembly ℝ) : Prop extends SameDesign a b where
  handled : ∀ n, (a.node n).Handled (b.node n)
  outside : ∀ n, (∀ c ∈ cs, ¬(a.constraint c).Moves n) → b.node n = a.node n

instance (cs : List ConstraintId) : IsPreorder (Assembly ℝ) (Tended cs) where
  refl a := ⟨.refl a, fun _ => Node.handled_refl _, fun _ _ => rfl⟩
  trans a b c h h' := by
    refine ⟨h.toSameDesign.trans h'.toSameDesign, fun n => (h.handled n).trans (h'.handled n), fun n hn => ?_⟩
    rw [h'.outside n fun d hd => by rw [h.constraint]; exact hn d hd, h.outside n hn]

/-- Clearing boosts handles nodes. -/
theorem handled_clearBoosts (a : Assembly ℝ) (nodes : List NodeId) (n : NodeId) :
    (a.node n).Handled ((a.clearBoosts nodes).node n) := by
  rw [node_clearBoosts]
  split
  · exact Node.handled_clearBoost _
  · exact Node.handled_refl _

/-- Reading moves nothing. -/
theorem tended_of_node_eq {cs : List ConstraintId} {a b : Assembly ℝ} (h : SameDesign a b)
    (hnode : b.node = a.node) : Tended cs a b := by
  refine ⟨h, fun n => ?_, fun n _ => ?_⟩
  · rw [hnode]
    exact Node.handled_refl _
  · rw [hnode]

end Assembly

namespace Act

open Assembly (SameDesign Tended)

variable {a : Assembly ℝ} {cs : List ConstraintId} {c : ConstraintId}

theorem tended_setEnds {first second : NodeId} {e : Ends ℝ}
    (he : (⟨a.node first, a.node second⟩ : Ends ℝ).Handled e) (hc : c ∈ cs)
    (hfirst : (a.constraint c).Moves first) (hsecond : (a.constraint c).Moves second) :
    Tended cs a ((a.setNode first e.first).setNode second e.second) := by
  refine ⟨⟨rfl, rfl, rfl, rfl, rfl⟩, fun n => ?_, fun n hn => ?_⟩
  · rw [Assembly.node_setNode, Assembly.node_setNode]
    split
    case isTrue hsame => rw [← hsame]; exact he.second
    case isFalse =>
      split
      case isTrue hsame => rw [← hsame]; exact he.first
      case isFalse => exact Node.handled_refl _
  · rw [Assembly.node_setNode, if_neg, Assembly.node_setNode, if_neg]
    · rintro rfl
      exact hn c hc hfirst
    · rintro rfl
      exact hn c hc hsecond

theorem runs_onEnds_tended {β : Type} {first second : NodeId} {pass : Pass ℝ (Ends ℝ) β}
    (hpass : ∀ e, pass.Leaves e e.Handled) (hc : c ∈ cs) (hfirst : (a.constraint c).Moves first)
    (hsecond : (a.constraint c).Moves second) :
    Runs (onEnds first second pass) a fun _ b => Tended cs a b :=
  runs_onEnds_leaves ((hpass _).mono fun _ he => tended_setEnds he hc hfirst hsecond)

theorem tended_setCorner {apex ray arm : NodeId} {k : Corner ℝ} (hapex : k.apex = a.node apex)
    (hray : k.ray = a.node ray) (harm : (a.node arm).Handled k.arm) (hc : c ∈ cs)
    (hmoves : (a.constraint c).Moves arm) :
    Tended cs a (((a.setNode apex k.apex).setNode ray k.ray).setNode arm k.arm) := by
  -- apex and ray are written back as they were read, also where two of the three nodes are the same
  have hnode (n : NodeId) :
      ((((a.setNode apex k.apex).setNode ray k.ray).setNode arm k.arm).node n) =
        if arm = n then k.arm else a.node n := by
    rw [Assembly.node_setNode, Assembly.node_setNode, Assembly.node_setNode, hapex, hray]
    split
    case isTrue => rfl
    case isFalse =>
      split
      case isTrue hsame => rw [hsame]
      case isFalse =>
        split
        case isTrue hsame => rw [hsame]
        case isFalse => rfl
  refine ⟨⟨rfl, rfl, rfl, rfl, rfl⟩, fun n => ?_, fun n hn => ?_⟩
  · rw [hnode]
    split
    case isTrue hsame => rw [← hsame]; exact harm
    case isFalse => exact Node.handled_refl _
  · rw [hnode, if_neg]
    rintro rfl
    exact hn c hc hmoves

theorem runs_rayPass_tended {cfg : Config ℝ} {target : ℝ} {apex ray arm : NodeId} (hc : c ∈ cs)
    (hmoves : (a.constraint c).Moves arm) :
    Runs (onCorner apex ray arm (rayPass cfg target)) a fun _ b => Tended cs a b := by
  refine runs_onCorner_leaves ((rayPass_leaves cfg target _).mono fun k hk => ?_)
  obtain ⟨hapex, hray, harm⟩ := hk
  exact tended_setCorner hapex hray harm hc hmoves

/-- A pass towards a value that was read of a target of the pair. -/
theorem runs_meet_tended {first second : NodeId} {direction : Direction} {pass : ℝ → Pass ℝ (Ends ℝ) Bool}
    (hpass : ∀ target e, (pass target).Leaves e e.Handled) (hc : c ∈ cs)
    (hshape : (a.constraint c).shape = .pair first second direction) {target? : Option ℝ}
    (htarget : target?.isSome → (a.constraint c).lengthTarget.isSome ∨ (a.constraint c).angleTarget.isSome) :
    Runs (meet (fun target => onEnds first second (pass target)) target?) a fun _ b => Tended cs a b := by
  cases target? with
  | none => exact runs_pure (refl_of _ a)
  | some target =>
    have hmoves (n : NodeId) (hn : n = first ∨ n = second) : (a.constraint c).Moves n := by
      unfold Constraint.Moves
      rw [hshape]
      exact ⟨hn, htarget rfl⟩
    exact runs_onEnds_tended (hpass target) hc (hmoves first (Or.inl rfl)) (hmoves second (Or.inr rfl))

theorem keeps_turnOne (hc : c ∈ cs) : Keeps (Tended cs) (turnOne c) := by
  intro a
  cases hshape : (a.constraint c).shape with
  | triple apex ray arm =>
    refine runs_read ?_
    rw [hshape]
    exact keeps_pure true a
  | pair first second direction =>
    refine runs_turnOne hshape ((runs_targetAngle_as a c).mono fun r b ⟨⟨hdesign, hnode⟩, hread⟩ => ?_)
    have hab : Tended cs a b := Assembly.tended_of_node_eq hdesign hnode
    cases r with
    | error fault => exact hab
    | ok angle? =>
      rw [then_ok]
      refine (runs_meet_tended (fun target e => anglePass_leaves direction e) hc (by rw [hab.constraint, hshape])
        fun hsome => ?_).mono fun _ b' hbb' => trans_of _ hab hbb'
      rw [hab.constraint]
      exact Or.inr ((hread angle? rfl).1.trans hsome)

theorem keeps_stretchOne (hc : c ∈ cs) : Keeps (Tended cs) (stretchOne c) := by
  intro a
  cases hshape : (a.constraint c).shape with
  | triple apex ray arm =>
    refine runs_read ?_
    rw [hshape]
    exact keeps_pure true a
  | pair first second direction =>
    refine runs_stretchOne hshape ((runs_targetLength_as a c).mono fun r b ⟨⟨hdesign, hnode⟩, hread⟩ => ?_)
    have hab : Tended cs a b := Assembly.tended_of_node_eq hdesign hnode
    cases r with
    | error fault => exact hab
    | ok length? =>
      rw [then_ok]
      refine (runs_meet_tended (fun target e => lengthPass_leaves e) hc (by rw [hab.constraint, hshape])
        fun hsome => ?_).mono fun _ b' hbb' => trans_of _ hab hbb'
      rw [hab.constraint]
      exact Or.inl ((hread length? rfl).1.trans hsome)

/-- Correcting a constraint handles the nodes that it moves. -/
theorem keeps_correctOne (hc : c ∈ cs) : Keeps (Tended cs) (correctOne c) := by
  intro a
  cases hshape : (a.constraint c).shape with
  | pair first second direction =>
    refine runs_correctOne_of_halves hshape ((keeps_turnOne hc a).mono fun _ b hab => then_of_rel hab fun angleMet => ?_)
    exact runs_bind_pure (keeps_stretchOne hc b)
  | triple apex ray arm =>
    refine runs_read ?_
    rw [hshape]
    cases htarget : (a.constraint c).angleTarget with
    | none => exact keeps_pure true a
    | some t =>
      dsimp only
      split
      · exact keeps_pure true a
      · refine runs_bind ((runs_evaluate a c t).mono fun r b ⟨hread, _⟩ => ?_)
        have hab : Tended cs a b := Assembly.tended_of_node_eq hread.toSameDesign (funext hread.node)
        refine then_of_rel hab fun target => runs_rayPass_tended hc ?_
        unfold Constraint.Moves
        rw [hab.constraint, hshape, htarget]
        exact ⟨rfl, rfl⟩

end Act

end Linkage
