import Linkage.Proofs.Sparing

/-!
# Linkage.Proofs.Bodies — relaxing keeps masses and base nodes

A pass moves the nodes that it is given and boosts their masses, and that is all (`Node.Worked`), whatever the scalars are
and whether it fails or not.  So correcting works on nodes in their places, and a run leaves the mass of every node as it was
and makes no base node and no free one (`keeps_sameBodies_correct`).
-/

namespace Linkage

variable {α : Type} [Scalar α]

/-! ### Passes -/

section Passes

variable {cfg : Config α} {target : α}

/-- Both ends were worked on at most. -/
structure Ends.Worked (e e' : Ends α) : Prop where
  first : e.first.Worked e'.first
  second : e.second.Worked e'.second

theorem Ends.worked_refl (e : Ends α) : e.Worked e := ⟨.start, .start⟩

theorem reachPass_works (share : α × α) (e : Ends α) : (reachPass cfg share).Leaves e e.Worked := by
  refine Pass.leaves_then (t := e) rfl ?_
  dsimp only
  split
  · refine Pass.leaves_ofExcept e.worked_refl fun dx _ => ?_
    refine Pass.leaves_ofExcept e.worked_refl fun dy _ => ?_
    exact Pass.leaves_then rfl ⟨.moved _ _ .start, .moved _ _ .start⟩
  · exact e.worked_refl

theorem anglePass_works (direction : Direction) (e : Ends α) : (anglePass cfg direction target).Leaves e e.Worked := by
  refine Pass.leaves_ofExcept e.worked_refl fun heading _ => ?_
  refine Pass.leaves_then (t := e) rfl ?_
  refine Pass.leaves_ofExcept e.worked_refl fun share _ => ?_
  refine Pass.leaves_then rfl ?_
  have hshift (d : Vec α) : e.Worked (e.shift share d) := ⟨.moved _ _ .start, .moved _ _ .start⟩
  refine Pass.leaves_bind (reachPass_works share _) (fun pulled e' he' => ?_) fun e' he' => ?_
  · exact Pass.leaves_then rfl ⟨.boosted ((hshift _).first.trans he'.first), .boosted ((hshift _).second.trans he'.second)⟩
  · exact ⟨(hshift _).first.trans he'.first, (hshift _).second.trans he'.second⟩

theorem lengthPass_works (e : Ends α) : (lengthPass cfg target).Leaves e e.Worked := by
  refine Pass.leaves_then (t := e) rfl ?_
  dsimp only
  split
  · exact e.worked_refl
  · refine Pass.leaves_ofExcept e.worked_refl fun u _ => ?_
    refine Pass.leaves_ofExcept e.worked_refl fun share _ => ?_
    refine Pass.leaves_then rfl ?_
    exact Pass.leaves_then rfl ⟨.boosted (.moved _ _ .start), .boosted (.moved _ _ .start)⟩

/-- All three nodes of a corner were worked on at most. -/
structure Corner.Worked (k k' : Corner α) : Prop where
  apex : k.apex.Worked k'.apex
  ray : k.ray.Worked k'.ray
  arm : k.arm.Worked k'.arm

theorem rayPass_works (k : Corner α) : (rayPass cfg target).Leaves k k.Worked := by
  have hidle : k.Worked k := ⟨.start, .start, .start⟩
  refine Pass.leaves_then (t := k) rfl ?_
  refine Pass.leaves_ofExcept hidle fun c _ => ?_
  refine Pass.leaves_ofExcept hidle fun s _ => ?_
  refine Pass.leaves_ofExcept hidle fun turn _ => ?_
  refine Pass.leaves_ofExcept hidle fun share _ => ?_
  exact Pass.leaves_then rfl ⟨.start, .start, .boosted (.moved _ _ .start)⟩

end Passes

/-! ### Corrections -/

namespace Assembly

theorem sameBodies_of_node_eq {a b : Assembly α} (h : b.node = a.node) : SameBodies a b := by
  intro n
  rw [h]
  exact ⟨rfl, rfl⟩

/-- Putting a node in its place that was worked out from the one that is in `a`. -/
theorem worked_setNode {a b : Assembly α} (h : ∀ n, (a.node n).Worked (b.node n)) {m : NodeId} {v : Node α}
    (hv : (a.node m).Worked v) (n : NodeId) : (a.node n).Worked ((b.setNode m v).node n) := by
  rw [node_setNode]
  by_cases hmn : m = n
  · rw [if_pos hmn, ← hmn]
    exact hv
  · rw [if_neg hmn]
    exact h n

end Assembly

namespace Act

open Assembly (Corrected SameBodies)

theorem sameBodies_onEnds {β : Type} {pass : Pass α (Ends α) β} (hpass : ∀ e, pass.Leaves e e.Worked)
    (first second : NodeId) : Keeps SameBodies (onEnds first second pass) := by
  refine fun a => runs_onEnds_leaves ((hpass _).mono fun e he => Assembly.sameBodies_of_worked ?_)
  exact Assembly.worked_setNode (Assembly.worked_setNode (fun _ => .start) he.first) he.second

theorem sameBodies_onCorner {β : Type} {pass : Pass α (Corner α) β} (hpass : ∀ k, pass.Leaves k k.Worked)
    (apex ray arm : NodeId) : Keeps SameBodies (onCorner apex ray arm pass) := by
  refine fun a => runs_onCorner_leaves ((hpass _).mono fun k hk => Assembly.sameBodies_of_worked ?_)
  exact Assembly.worked_setNode (Assembly.worked_setNode
    (Assembly.worked_setNode (fun _ => .start) hk.apex) hk.ray) hk.arm

theorem Keeps.sameBodies_of_corrected {β : Type} {p : Act α β} (h : Keeps (Corrected []) p) : Keeps SameBodies p :=
  fun a => (h a).mono fun _ _ hab => Assembly.sameBodies_of_node_eq (funext fun n => hab.outside n List.not_mem_nil)

/-- Correcting a constraint changes no mass and makes no base node, whether it fails or not. -/
theorem sameBodies_correctOne (c : ConstraintId) : Keeps (α := α) SameBodies (correctOne c) := by
  refine keeps_read fun a => ?_
  dsimp only
  split
  · next first second direction _ =>
    have hmeet {pass : α → Pass α (Ends α) Bool} (hpass : ∀ target e, (pass target).Leaves e e.Worked)
        (target? : Option α) : Keeps SameBodies (meet (fun target => onEnds first second (pass target)) target?) := by
      cases target? with
      | some target => exact sameBodies_onEnds (hpass target) first second
      | none => exact keeps_pure true
    exact (Keeps.sameBodies_of_corrected (keeps_targetAngle c)).bind (fun angle? =>
      (hmeet (fun target e => anglePass_works direction e) angle?).bind fun angleMet =>
        (Keeps.sameBodies_of_corrected (keeps_targetLength c)).bind fun length? =>
          (hmeet (fun target e => lengthPass_works e) length?).bind fun lengthMet => keeps_pure _) a
  · next apex ray arm _ =>
    split
    · exact keeps_pure true a
    · next t ht =>
      split
      · exact keeps_pure true a
      · refine runs_bind ((runs_evaluate a c t).mono fun _ b hread => ?_)
        have hab : SameBodies a b := Assembly.sameBodies_of_node_eq (funext hread.1.node)
        exact then_of_rel hab fun target => sameBodies_onCorner rayPass_works apex ray arm b

theorem keeps_sameBodies_correct (s : SystemId) : Keeps (α := α) SameBodies (correct s) :=
  keeps_correct Assembly.sameBodies_prepareAll sameBodies_correctOne Assembly.sameBodies_restoreAll s

end Act

end Linkage
