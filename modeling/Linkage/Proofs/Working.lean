import Linkage.Proofs.Outcomes

/-!
# Linkage.Proofs.Working — what sweeps that do not fail leave of the nodes

A node in a relaxation goes through moves, counted corrections and clearings and nothing else (`Node.Worked`), so its mass
is its own for good.  A pair whose fixed length is met has it within the tolerance (`Corrects.near`), and a correction
that meets its constraint moves nothing unless there is a wanted angle (`Corrects.node_eq`).  The last sections say it of
sweeps in a row, up to the one that converges (`Converges.sweeps`, `Converges.worked`).
-/

namespace Linkage

variable {α : Type} [Scalar α]

/-! ### What happens to one node -/

/-- `w` is `v` after moves, counted corrections and clearings. -/
inductive Node.Worked (v : Node α) : Node α → Prop where
  | start : Worked v v
  | moved {w : Node α} (x y : α) (h : Worked v w) : Worked v (w.moveTo x y)
  | boosted {w : Node α} (h : Worked v w) : Worked v w.addBoost
  | cleared {w : Node α} (h : Worked v w) : Worked v w.clearBoost

namespace Node.Worked

variable {u v w : Node α}

theorem trans (h : Worked u v) (h' : Worked v w) : Worked u w := by
  induction h' with
  | start => exact h
  | moved x y _ ih => exact ih.moved x y
  | boosted _ ih => exact ih.boosted
  | cleared _ ih => exact ih.cleared

/-- What holds of a node, and goes on to hold when it is moved, boosted or cleared. -/
theorem preserves {P : Node α → Prop} (h : Worked v w) (hmove : ∀ v x y, P v → P (v.moveTo x y))
    (hboost : ∀ v, P v → P v.addBoost) (hclear : ∀ v, P v → P v.clearBoost) (hv : P v) : P w := by
  induction h with
  | start => exact hv
  | moved x y _ ih => exact hmove _ x y ih
  | boosted _ ih => exact hboost _ ih
  | cleared _ ih => exact hclear _ ih

/-- Work does not change what a node is, and counts nothing for a base node. -/
theorem body (h : Worked v w) :
    w.mass = v.mass ∧ w.base = v.base ∧ w.name = v.name ∧ (v.base = true → w.boost = v.boost) := by
  refine h.preserves (P := fun w => w.mass = v.mass ∧ w.base = v.base ∧ w.name = v.name ∧
    (v.base = true → w.boost = v.boost)) (fun w x y hw => hw) ?_ ?_ ⟨rfl, rfl, rfl, fun _ => rfl⟩
  · rintro w ⟨hmass, hbase, hname, hboost⟩
    unfold addBoost
    split
    case isTrue => exact ⟨hmass, hbase, hname, hboost⟩
    case isFalse hfree => exact ⟨hmass, hbase, hname, fun h => absurd (hbase.trans h) hfree⟩
  · rintro w ⟨hmass, hbase, hname, hboost⟩
    unfold clearBoost
    split
    case isTrue => exact ⟨hmass, hbase, hname, hboost⟩
    case isFalse hfree => exact ⟨hmass, hbase, hname, fun h => absurd (hbase.trans h) hfree⟩

end Node.Worked

section Work

variable {cfg : Config α} {node node' : NodeId → Node α} {met : Bool}

theorem Pulls.worked {share : α × α} {e e' : Ends α} (h : Pulls cfg share e met e') :
    e.first.Worked e'.first ∧ e.second.Worked e'.second := by
  cases h with
  | within => exact ⟨.start, .start⟩
  | beyond => exact ⟨.moved _ _ .start, .moved _ _ .start⟩

theorem Turns.worked {direction : Direction} {target : α} {e e' : Ends α} (h : Turns cfg direction target e met e') :
    e.first.Worked e'.first ∧ e.second.Worked e'.second := by
  cases h with
  | turned _ _ _ _ _ _ pulls =>
    obtain ⟨hfirst, hsecond⟩ := pulls.worked
    exact ⟨.boosted (.trans (.moved _ _ .start) hfirst), .boosted (.trans (.moved _ _ .start) hsecond)⟩

theorem Stretches.worked {target : α} {e e' : Ends α} (h : Stretches cfg target e met e') :
    e.first.Worked e'.first ∧ e.second.Worked e'.second := by
  cases h with
  | met => exact ⟨.start, .start⟩
  | moved => exact ⟨.boosted (.moved _ _ .start), .boosted (.moved _ _ .start)⟩

theorem Meets.worked {pass : α → Pass α (Ends α) Bool} (hpass : ∀ {target e e' met}, pass target e = .ok met e' →
    e.first.Worked e'.first ∧ e.second.Worked e'.second) {first second : NodeId} {t? : Option (Target α)}
    (h : Meets pass first second node t? met node') (n : NodeId) : (node n).Worked (node' n) := by
  cases h with
  | free => exact .start
  | passed t target met e value ran =>
    obtain ⟨hfirst, hsecond⟩ := hpass ran
    unfold Ends.put
    split
    case isTrue hn => rwa [← hn]
    case isFalse =>
      split
      case isTrue hn => rwa [← hn]
      case isFalse => exact .start

theorem Corrects.worked {k : Constraint α} (h : Corrects cfg k node met node') (n : NodeId) :
    (node n).Worked (node' n) := by
  cases h with
  | pair shape angle length =>
    exact (angle.worked (fun ran => (turns_of_anglePass ran).worked) n).trans
      (length.worked (fun ran => (stretches_of_lengthPass ran).worked) n)
  | idle => exact .start
  | triple shape angle swings =>
    cases swings with
    | swung share d shared =>
      -- only the arm has been moved and boosted; apex and first ray are put back as they were
      unfold Corner.put
      dsimp only
      split
      case isTrue hn =>
        rw [← hn]
        exact .boosted (.moved _ _ .start)
      case isFalse =>
        split
        case isTrue hn => rw [← hn]; exact .start
        case isFalse =>
          split
          case isTrue hn => rw [← hn]; exact .start
          case isFalse => exact .start

theorem Sweeps.worked {cfg : ConstraintId → Config α} {constraint : ConstraintId → Constraint α}
    {constraints : List ConstraintId} {answers : List Bool} (h : Sweeps cfg constraint node constraints answers node')
    (n : NodeId) : (node n).Worked (node' n) := by
  induction h with
  | nil => exact .start
  | cons first _ ih => exact (first.worked n).trans ih

/-- A distance that is met leaves every node as it is. -/
theorem Meets.node_eq_of_length {target? : Option (Target α)} {first second : NodeId}
    (h : Meets (lengthPass cfg) first second node target? true node') : node' = node := by
  generalize hmet : true = met at h
  cases h with
  | free => rfl
  | passed t target met e value ran =>
    subst hmet
    cases stretches_of_lengthPass ran with
    | met near =>
      funext n
      unfold Ends.put
      split
      case isTrue hn => rw [← hn]
      case isFalse =>
        split
        case isTrue hn => rw [← hn]
        case isFalse => rfl

/-- A fixed distance that is met is kept within the tolerance. -/
theorem Meets.near {target : α} {first second : NodeId}
    (h : Meets (lengthPass cfg) first second node (some (.fixed target)) true node') :
    Scalar.abs (target - ((node' first).vectorTo (node' second)).length) < cfg.tolerance := by
  rw [h.node_eq_of_length]
  -- `true` is an index here, which has to be a variable before the cases can be split
  generalize hmet : true = met at h
  cases h with
  | passed t target' met e value ran =>
    subst hmet
    obtain rfl := value target rfl
    cases stretches_of_lengthPass ran with
    | met near => exact near

/-- A correction that meets a pair leaves it as its angle pass left it, with both targets met. -/
theorem Corrects.pair_met {k : Constraint α} (h : Corrects cfg k node true node') {first second : NodeId}
    {direction : Direction} (hshape : k.shape = .pair first second direction) :
    Meets (anglePass cfg direction) first second node k.angleTarget true node' ∧
      Meets (lengthPass cfg) first second node' k.lengthTarget true node' := by
  generalize hmet : true = met at h
  cases h with
  | pair shape angle length =>
    cases hshape.symm.trans shape
    obtain ⟨rfl, rfl⟩ := (Bool.and_eq_true ..).mp hmet.symm
    obtain rfl := length.node_eq_of_length
    exact ⟨angle, length⟩
  | idle shape => cases hshape.symm.trans shape
  | triple shape => cases hshape.symm.trans shape

/-- A pair whose fixed length is met has it within the tolerance. -/
theorem Corrects.near {k : Constraint α} (h : Corrects cfg k node true node') {first second : NodeId}
    {direction : Direction} (hshape : k.shape = .pair first second direction) {target : α}
    (htarget : k.lengthTarget = some (.fixed target)) :
    Scalar.abs (target - ((node' first).vectorTo (node' second)).length) < cfg.tolerance := by
  have hlength := (h.pair_met hshape).2
  rw [htarget] at hlength
  exact hlength.near

/-- A correction that meets a constraint without a wanted angle leaves every node as it is. -/
theorem Corrects.node_eq {k : Constraint α} (h : Corrects cfg k node true node') (hfree : k.angleTarget = none) :
    node' = node := by
  generalize hmet : true = met at h
  cases h with
  | pair shape angle length =>
    obtain ⟨rfl, -⟩ := (Bool.and_eq_true ..).mp hmet.symm
    rw [length.node_eq_of_length]
    rw [hfree] at angle
    cases angle with
    | free => rfl
  | idle => rfl
  | triple shape angle swings =>
    rw [hfree] at angle
    exact nomatch angle

/-- A correction leaves nodes of other constraints as they are. -/
theorem Corrects.outside {k : Constraint α} (h : Corrects cfg k node met node') {n : NodeId} (hn : n ∉ k.shape.nodes) :
    node' n = node n := by
  have hput {pass : α → Pass α (Ends α) Bool} {node node' : NodeId → Node α} {first second : NodeId}
      {target? : Option (Target α)} {met : Bool} (h : Meets pass first second node target? met node')
      (hn : n ∉ [first, second]) : node' n = node n := by
    simp only [List.mem_cons, List.not_mem_nil, or_false, not_or] at hn
    cases h with
    | free => rfl
    | passed => exact (if_neg (Ne.symm hn.2)).trans (if_neg (Ne.symm hn.1))
  cases h with
  | pair shape angle length =>
    rw [shape] at hn
    exact (hput length hn).trans (hput angle hn)
  | idle => rfl
  | triple shape =>
    rw [shape] at hn
    simp only [Shape.nodes, List.mem_cons, List.not_mem_nil, or_false, not_or] at hn
    exact (if_neg (Ne.symm hn.2.2)).trans ((if_neg (Ne.symm hn.2.1)).trans (if_neg (Ne.symm hn.1)))

/-- A sweep that meets every constraint, none of which has a wanted angle, leaves every node as it is. -/
theorem Sweeps.node_eq {cfg : ConstraintId → Config α} {constraint : ConstraintId → Constraint α}
    {constraints : List ConstraintId} {answers : List Bool} (h : Sweeps cfg constraint node constraints answers node')
    (hmet : ∀ met ∈ answers, met = true) (hfree : ∀ c ∈ constraints, (constraint c).angleTarget = none) :
    node' = node := by
  induction h with
  | nil => rfl
  | cons first _ ih =>
    obtain ⟨rfl, hlater⟩ := List.forall_mem_cons.mp hmet
    obtain ⟨hc, hrest⟩ := List.forall_mem_cons.mp hfree
    rw [ih hlater hrest, first.node_eq hc]

end Work

namespace Act

open Assembly (Corrected)

/-! ### Sweeps in a row -/

theorem runs_answersOf {ns : List NodeId} {a : Assembly α} {constraints : List ConstraintId}
    (h : a.nodesOf constraints ⊆ ns) : Runs (answersOf constraints) a fun _ b => Corrected ns a b := by
  induction constraints generalizing a with
  | nil => exact keeps_pure [] a
  | cons c rest ih =>
    obtain ⟨hc, hrest⟩ := List.append_subset.mp h
    refine runs_bind ((runs_correctOne hc).mono fun _ b hab => then_of_rel hab fun met => runs_bind_pure ?_)
    exact ih (by rwa [hab.samePlan.nodesOf])

theorem runs_bareSweep (a : Assembly α) (constraints : List ConstraintId) :
    Runs (bareSweep constraints) a fun _ b => Corrected (a.nodesOf constraints) a b := by
  have hclear : Corrected (a.nodesOf constraints) a (a.clearBoosts (a.nodesOf constraints)) :=
    Assembly.corrected_clearBoosts (List.Subset.refl _) a
  have hnodes : (a.clearBoosts (a.nodesOf constraints)).nodesOf constraints ⊆ a.nodesOf constraints := by
    rw [hclear.samePlan.nodesOf]
    exact List.Subset.refl _
  exact runs_after_change ((runs_answersOf hnodes).mono fun _ b hb => trans_of _ hclear hb)

theorem after_bareSweep (constraints : List ConstraintId) (i : Nat) (st : Session α) :
    (bareSweep constraints).after (swept constraints i st) = swept constraints (i + 1) st :=
  (Function.iterate_succ_apply' ..).symm

/-- Sweeps move the nodes of their constraints at most. -/
theorem corrected_swept (constraints : List ConstraintId) (i : Nat) (st : Session α) :
    Corrected (st.assembly.nodesOf constraints) st.assembly (swept constraints i st).assembly := by
  induction i with
  | zero => exact refl_of _ st.assembly
  | succ i ih =>
    have hstep := (runs_bareSweep (swept constraints i st).assembly constraints).at_session
    -- sweeps leave the plan alone, so the last one joins the nodes of the first
    rw [after_bareSweep, ih.samePlan.nodesOf] at hstep
    exact trans_of _ ih hstep

/-- One of converging sweeps corrects every constraint, and nodes are worked on only. -/
theorem Converges.sweeps {s : SystemId} {constraints : List ConstraintId} {k : Nat} {st : Session α}
    (h : Converges s constraints k st) {i : Nat} (hi : i < k) : ∃ answers,
      (bareSweep constraints).answer (Act.swept constraints i st) = .ok answers ∧
      (i + 1 = k → ∀ met ∈ answers, met = true) ∧
      Sweeps st.assembly.configOf st.assembly.constraint
        ((Act.swept constraints i st).assembly.clearBoosts (st.assembly.nodesOf constraints)).node constraints answers
        (Act.swept constraints (i + 1) st).assembly.node := by
  obtain ⟨answers, hanswer, -, hmet⟩ := h.swept i hi
  have hsweeps := (runs_bareSweep_ok (Act.swept constraints i st).assembly constraints).at_session answers hanswer
  have hdesign := corrected_swept constraints i st
  rw [after_bareSweep, hdesign.samePlan.nodesOf,
    show Assembly.configOf _ = st.assembly.configOf from funext hdesign.samePlan.configOf,
    show Assembly.constraint _ = st.assembly.constraint from funext hdesign.constraint] at hsweeps
  exact ⟨answers, hanswer, hmet, hsweeps⟩

end Act

theorem Assembly.worked_clearBoosts (a : Assembly α) (nodes : List NodeId) (n : NodeId) :
    (a.node n).Worked ((a.clearBoosts nodes).node n) := by
  rw [node_clearBoosts]
  split
  · exact .cleared .start
  · exact .start

/-- Converging sweeps only work on nodes. -/
theorem Act.Converges.worked {s : SystemId} {constraints : List ConstraintId} {k : Nat} {st : Session α}
    (h : Converges s constraints k st) {i : Nat} (hi : i ≤ k) (n : NodeId) :
    (st.assembly.node n).Worked ((Act.swept constraints i st).assembly.node n) := by
  induction i with
  | zero => exact .start
  | succ i ih =>
    obtain ⟨answers, -, -, hsweeps⟩ := h.sweeps hi
    exact (ih (by omega)).trans ((Assembly.worked_clearBoosts _ _ n).trans (hsweeps.worked n))

/-! ### Masses and base nodes -/

namespace Assembly

/-- The masses are as they were, and so is which nodes are base nodes. -/
def SameBodies (a b : Assembly α) : Prop :=
  ∀ n, (b.node n).mass = (a.node n).mass ∧ (b.node n).base = (a.node n).base

instance : IsPreorder (Assembly α) SameBodies where
  refl _ _ := ⟨rfl, rfl⟩
  trans _ _ _ h h' n := ⟨(h' n).1.trans (h n).1, (h' n).2.trans (h n).2⟩

theorem sameBodies_of_worked {a b : Assembly α} (h : ∀ n, (a.node n).Worked (b.node n)) : SameBodies a b :=
  fun n => ⟨(h n).body.1, (h n).body.2.1⟩

theorem sameBodies_prepareAll (first : Bool) (cs : List ConstraintId) (a : Assembly α) :
    SameBodies a (a.prepareAll first cs) := by
  refine sameBodies_of_worked fun n => ?_
  rw [node_prepareAll]
  split
  · exact .cleared .start
  · exact .start

theorem sameBodies_restoreAll (cs : List ConstraintId) (a : Assembly α) : SameBodies a (a.restoreAll cs) := by
  have hset (a : Assembly α) (v : Saved α) : SameBodies a
      (a.setNode v.node { a.node v.node with x := v.x, y := v.y, boost := v.boost }) := by
    intro n
    rw [node_setNode]
    split
    case isTrue hn => rw [← hn]; exact ⟨rfl, rfl⟩
    case isFalse => exact ⟨rfl, rfl⟩
  have hfold {β : Type} {step : Assembly α → β → Assembly α} (hstep : ∀ a x, SameBodies a (step a x)) (xs : List β)
      (a : Assembly α) : SameBodies a (xs.foldl step a) := by
    induction xs generalizing a with
    | nil => exact refl_of _ a
    | cons x rest ih => exact trans_of _ (hstep a x) (ih _)
  exact hfold (fun a c => hfold hset _ a) cs a

end Assembly

end Linkage
