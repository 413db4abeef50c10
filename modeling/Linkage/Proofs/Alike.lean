import Linkage.Proofs.Agreement
import Linkage.Proofs.Relaxing

/-!
# Linkage.Proofs.Alike — corrections do not see what constraints saved

Two assemblies are alike if they differ at most in the node states that constraints saved for a rollback.  Reading a
target and correcting a constraint cannot tell them apart: they answer the same and leave them alike.
-/

namespace Linkage

variable {α : Type}

namespace Assembly

/-- `b` is `a` up to the states that constraints saved. -/
structure Alike (a b : Assembly α) : Prop extends SamePlan a b where
  nodes : b.nodes = a.nodes
  found : b.found = a.found
  readings : b.readings = a.readings

namespace Alike

variable {a b c : Assembly α}

theorem refl (a : Assembly α) : Alike a a := ⟨.refl a, rfl, rfl, rfl⟩

theorem trans (h : Alike a b) (h' : Alike b c) : Alike a c :=
  ⟨h.toSamePlan.trans h'.toSamePlan, h'.nodes.trans h.nodes, h'.found.trans h.found, h'.readings.trans h.readings⟩

theorem relaxed (h : Alike a b) : Relaxed a b := ⟨h.toSamePlan, fun f hf => Or.inl (by rwa [h.found] at hf)⟩

theorem remembered? (h : Alike a b) (key : Nat) (s : SystemId) : b.remembered? key s = a.remembered? key s := by
  unfold Assembly.remembered?; rw [h.found]

theorem remember (h : Alike a b) (f : Found) :
    Alike { a with found := f :: a.found } { b with found := f :: b.found } where
  constraint := h.constraint
  size := h.size
  systems := h.systems
  configs := h.configs
  ambient := h.ambient
  nextKey := h.nextKey
  nodes := h.nodes
  found := congrArg (f :: ·) h.found
  readings := h.readings

theorem countReading (h : Alike a b) :
    Alike { a with readings := a.readings + 1 } { b with readings := b.readings + 1 } where
  constraint := h.constraint
  size := h.size
  systems := h.systems
  configs := h.configs
  ambient := h.ambient
  nextKey := h.nextKey
  nodes := h.nodes
  found := h.found
  readings := congrArg (· + 1) h.readings

variable [Scalar α]

theorem node (h : Alike a b) : b.node = a.node := by
  funext n; unfold Assembly.node; rw [h.nodes]

theorem length (h : Alike a b) (d : ConstraintId) : b.length d = a.length d := by
  unfold Assembly.length; rw [h.shape, h.node]

theorem angle (h : Alike a b) (d : ConstraintId) : b.angle d = a.angle d := by
  unfold Assembly.angle; rw [h.shape, h.node]

theorem isFinite (h : Alike a b) (s : SystemId) : b.isFinite s = a.isFinite s := by
  unfold Assembly.isFinite; rw [h.system, h.node]

theorem setNode (h : Alike a b) (n : NodeId) (v : Node α) : Alike (a.setNode n v) (b.setNode n v) where
  constraint := h.constraint
  size := h.size
  systems := h.systems
  configs := h.configs
  ambient := h.ambient
  nextKey := h.nextKey
  nodes := congrArg (fun t => t.set n v) h.nodes
  found := h.found
  readings := h.readings

end Alike

end Assembly

namespace Act

open Assembly (Alike SamePlan)

variable [Scalar α]

/-! ### Reading targets -/

theorem blind_byId? (s : SystemId) (id : Option String) : Blind (α := α) Alike (byId? s id) :=
  .traced (blind_read fun a b hab => by
    rw [show b.byId? s = a.byId? s from funext (hab.byId? s)]
    exact agree_pure rfl hab) (writable_byId? id)

theorem blind_resolve (c : ConstraintId) (ref : String) : Blind (α := α) Alike (resolve c ref) := by
  refine blind_read fun a b hab => ?_
  dsimp only
  rw [hab.owner, hab.id]
  cases (a.constraint c).owner with
  | none => exact agree_throw _ hab
  | some s =>
    refine (blind_byId? s (some ref)).bind (fun found? => ?_) a b hab
    cases found? with
    | none => exact blind_throw _
    | some found => exact blind_pure found

theorem blind_follow (r : Reference) (c : ConstraintId) : Blind (α := α) Alike (follow r c) := by
  refine blind_read fun a b hab => ?_
  dsimp only
  rw [hab.owner, hab.id, show b.remembered? r.key = a.remembered? r.key from funext (hab.remembered? r.key)]
  cases (a.constraint c).owner.bind fun s => a.remembered? r.key s with
  | some found => exact agree_pure rfl hab
  | none =>
    refine (blind_resolve c r.ref).bind (fun found => ?_) a b hab
    refine blind_read fun a' b' hab' => ?_
    rw [hab'.shape]
    split
    · cases (a.constraint c).owner with
      | none => exact agree_bind (agree_report hab') fun _ _ _ _ _ h => agree_pure rfl h
      | some s =>
        refine agree_bind (agree_change (hab'.remember _)) fun _ _ _ _ _ h => ?_
        exact agree_bind (agree_report h) fun _ _ _ _ _ h => agree_pure rfl h
    · exact agree_throw _ hab'

theorem blind_ownLength (c : ConstraintId) : Blind (α := α) Alike (ownLength c) :=
  blind_read fun a b hab => by
    rw [hab.length]
    exact agree_ofExcept _ hab

theorem blind_ownAngle (c : ConstraintId) : Blind (α := α) Alike (ownAngle c) :=
  blind_read fun a b hab => by
    rw [hab.angle]
    exact agree_pure rfl hab

theorem blind_lengthAt (r : Reference) (c : ConstraintId) : Blind (α := α) Alike (lengthAt r c) :=
  (blind_follow r c).bind fun d => blind_ownLength d

theorem blind_angleAt (r : Reference) (c : ConstraintId) : Blind (α := α) Alike (angleAt r c) :=
  (blind_follow r c).bind fun d => blind_ownAngle d

theorem blind_formula (c : ConstraintId) (f : Formula α) : Blind Alike (formula c f) := by
  have hpure (x : α) : Blind Alike (pure x : Act α α) := blind_pure x
  cases f with
  | ownLengthMin least => exact (blind_ownLength c).bind fun _ => hpure _
  | ownLengthMax most => exact (blind_ownLength c).bind fun _ => hpure _
  | ownLengthRange least most => exact (blind_ownLength c).bind fun _ => hpure _
  | lengthOf r factor => exact (blind_lengthAt r c).bind fun _ => hpure _
  | ownAngleMin least => exact (blind_ownAngle c).bind fun _ => hpure _
  | ownAngleMax most => exact (blind_ownAngle c).bind fun _ => hpure _
  | ownAngleRange least most => exact (blind_ownAngle c).bind fun _ => hpure _
  | angleOf r offset => exact (blind_angleAt r c).bind fun _ => hpure _
  | around r least most => exact (blind_angleAt r c).bind fun _ => (blind_ownAngle c).bind fun _ => hpure _
  | obtuse r =>
    refine (blind_angleAt r c).bind fun _ => (blind_ownAngle c).bind fun _ => ?_
    dsimp only
    split
    · exact hpure _
    · exact hpure _
  | between r₁ r₂ scale => exact (blind_angleAt r₁ c).bind fun _ => (blind_angleAt r₂ c).bind fun _ => hpure _
  -- a callable also counts that it was read, which both do in the same way
  | callable read =>
    refine blind_read fun a b hab => ?_
    rw [hab.shape, hab.node, hab.readings]
    exact agree_bind (agree_change hab.countReading) fun _ _ _ _ _ h => agree_ofExcept _ h

theorem blind_evaluate (c : ConstraintId) (t : Target α) : Blind Alike (evaluate c t) := by
  cases t with
  | fixed x => exact blind_pure x
  | computed k => exact blind_formula c k.formula

/-- Reading a target that may be missing. -/
theorem blind_optional (c : ConstraintId) (t? : Option (Target α)) : Blind Alike (match t? with
    | some t => return some (← evaluate c t)
    | none => return none : Act α (Option α)) := by
  cases t? with
  | none => exact blind_pure none
  | some t => exact (blind_evaluate c t).bind fun x => blind_pure (some x)

theorem blind_targetLength (c : ConstraintId) : Blind (α := α) Alike (targetLength c) :=
  blind_read fun a b hab => by
    rw [hab.lengthTarget]
    exact blind_optional c _ a b hab

theorem blind_targetAngle (c : ConstraintId) : Blind (α := α) Alike (targetAngle c) :=
  blind_read fun a b hab => by
    rw [hab.angleTarget]
    exact blind_optional c _ a b hab

/-! ### Correcting -/

/-- Related assemblies have the same plan and the same nodes, also after a node is replaced in both. -/
structure Showing (R : Assembly α → Assembly α → Prop) : Prop where
  plan : ∀ {a b}, R a b → SamePlan a b
  node : ∀ {a b}, R a b → b.node = a.node
  setNode : ∀ {a b}, R a b → ∀ n v, R (a.setNode n v) (b.setNode n v)

section Showing

variable {R : Assembly α → Assembly α → Prop} (hR : Showing R)
include hR

theorem blind_onEnds {β : Type} (first second : NodeId) (pass : Pass α (Ends α) β) :
    Blind R (onEnds first second pass) := by
  refine blind_read fun a b hab => ?_
  rw [hR.node hab]
  have hmoved (e : Ends α) := hR.setNode (hR.setNode hab first e.first) second e.second
  cases pass ⟨a.node first, a.node second⟩ with
  | ok x e => exact agree_bind (agree_change (hmoved e)) fun _ _ _ _ _ h => agree_pure rfl h
  | error fault e => exact agree_bind (agree_change (hmoved e)) fun _ _ _ _ _ h => agree_throw fault h

theorem blind_onCorner {β : Type} (apex ray arm : NodeId) (pass : Pass α (Corner α) β) :
    Blind R (onCorner apex ray arm pass) := by
  refine blind_read fun a b hab => ?_
  rw [hR.node hab]
  have hmoved (k : Corner α) := hR.setNode (hR.setNode (hR.setNode hab apex k.apex) ray k.ray) arm k.arm
  cases pass ⟨a.node apex, a.node ray, a.node arm⟩ with
  | ok x k => exact agree_bind (agree_change (hmoved k)) fun _ _ _ _ _ h => agree_pure rfl h
  | error fault k => exact agree_bind (agree_change (hmoved k)) fun _ _ _ _ _ h => agree_throw fault h

theorem blind_meet (first second : NodeId) (pass : α → Pass α (Ends α) Bool) (target? : Option α) :
    Blind R (meet (fun target => onEnds first second (pass target)) target?) := by
  cases target? with
  | some target => exact blind_onEnds hR first second (pass target)
  | none => exact blind_pure true

/-- Where the targets of a constraint read alike, correcting it does not tell related assemblies apart. -/
theorem blind_correctOne_of {c : ConstraintId} (hangle : Blind R (targetAngle c)) (hlength : Blind R (targetLength c))
    (hvalue : ∀ {a b t}, R a b → (a.constraint c).angleTarget = some t →
      Agree Eq R (evaluate c t) (evaluate c t) a b) : Blind R (correctOne c) := by
  refine blind_read fun a b hab => ?_
  have hplan := hR.plan hab
  dsimp only
  rw [hplan.shape, hplan.configOf, hplan.angleTarget, hR.node hab]
  -- the plan is shared, so that both are pairs or both triples, with the same passes in the same order
  cases (a.constraint c).shape with
  | pair first second direction =>
    refine Blind.bind hangle (fun angle? => ?_) a b hab
    refine Blind.bind (blind_meet hR first second _ angle?) fun angleMet => ?_
    refine Blind.bind hlength fun length? => ?_
    exact Blind.bind (blind_meet hR first second _ length?) fun lengthMet => blind_pure _
  | triple apex ray arm =>
    cases htarget : (a.constraint c).angleTarget with
    | none => exact agree_pure rfl hab
    | some t =>
      dsimp only
      split
      · exact agree_pure rfl hab
      -- the target of a triple is read only where its first ray is long enough, which is decided by the nodes
      · refine agree_bind (hvalue hab htarget) fun target target' a' b' heq hab' => ?_
        subst heq
        exact blind_onCorner hR apex ray arm _ a' b' hab'

end Showing

theorem blind_correctOne (c : ConstraintId) : Blind (α := α) Alike (correctOne c) :=
  blind_correctOne_of ⟨Alike.toSamePlan, Alike.node, Alike.setNode⟩ (blind_targetAngle c) (blind_targetLength c)
    fun hab _ => blind_evaluate c _ _ _ hab

end Act

end Linkage
