import Linkage.Proofs.Consultation
import Linkage.Proofs.Objects
import Linkage.System.Report

/-!
# Linkage.Proofs.Relaxing — what relaxing a system can change

Correcting constraints moves nodes of theirs and extends the memory of references, and nothing else (`Corrected`).  A
whole run also rewrites the states that constraints save (`Relaxed`).  What is newly remembered is always what a
reference in a stored target finds.  Both relations are preorders, so each is proved action by action.
-/

namespace Linkage

variable {α : Type}

namespace Assembly

/-! ### What is remembered -/

/-- Some stored target follows the reference. -/
def Cites (a : Assembly α) (r : Reference) : Prop :=
  ∃ c, r ∈ Target.referencesOf (a.constraint c).lengthTarget ∨ r ∈ Target.referencesOf (a.constraint c).angleTarget

/-- What is remembered is a constraint registered under the identifier of the reference, with its quantity. -/
def Finds (a : Assembly α) (r : Reference) (f : Found) : Prop :=
  f.key = r.key ∧ a.byId? f.system r.ref = some f.constraint ∧ (a.constraint f.constraint).shape.has r.quantity

/-- Everything that `b` remembers beyond `a` is what a reference of some stored target finds. -/
def Recalls (a b : Assembly α) : Prop := ∀ f ∈ b.found, f ∈ a.found ∨ ∃ r, a.Cites r ∧ a.Finds r f

/-- The nodes of a list of constraints, in order and with repetitions. -/
def nodesOf (a : Assembly α) (constraints : List ConstraintId) : List NodeId :=
  constraints.flatMap fun c => (a.constraint c).shape.nodes

/-- `b` has the systems and configurations of `a`, and its constraints up to the states that they saved. -/
structure SamePlan (a b : Assembly α) : Prop where
  constraint : ∀ c, b.constraint c = { a.constraint c with saved := (b.constraint c).saved }
  size : a.constraints.size ≤ b.constraints.size
  systems : b.systems = a.systems
  configs : b.configs = a.configs
  ambient : b.ambient = a.ambient
  nextKey : b.nextKey = a.nextKey

theorem SameDesign.samePlan {a b : Assembly α} (h : SameDesign a b) : SamePlan a b where
  constraint c := by rw [h.constraint]
  size := Nat.le_of_eq (by rw [h.constraints])
  systems := h.systems
  configs := h.configs
  ambient := h.ambient
  nextKey := h.nextKey

namespace SamePlan

variable {a b c : Assembly α}

theorem refl (a : Assembly α) : SamePlan a a := (SameDesign.refl a).samePlan

theorem trans (h : SamePlan a b) (h' : SamePlan b c) : SamePlan a c where
  constraint d := by
    rw [h'.constraint d, h.constraint d]
  size := Nat.le_trans h.size h'.size
  systems := h'.systems.trans h.systems
  configs := h'.configs.trans h.configs
  ambient := h'.ambient.trans h.ambient
  nextKey := h'.nextKey.trans h.nextKey

/-- A plan does not depend on nodes and memory. -/
theorem of_sameDesign {a' b' : Assembly α} (h : SamePlan a b) (ha : SameDesign a a') (hb : SameDesign b b') :
    SamePlan a' b' where
  constraint d := by
    rw [hb.constraint, ha.constraint]
    exact h.constraint d
  size := by
    rw [hb.constraints, ha.constraints]
    exact h.size
  systems := by rw [hb.systems, ha.systems, h.systems]
  configs := by rw [hb.configs, ha.configs, h.configs]
  ambient := by rw [hb.ambient, ha.ambient, h.ambient]
  nextKey := by rw [hb.nextKey, ha.nextKey, h.nextKey]

theorem id (h : SamePlan a b) (d : ConstraintId) : (b.constraint d).id = (a.constraint d).id := by rw [h.constraint]

theorem shape (h : SamePlan a b) (d : ConstraintId) : (b.constraint d).shape = (a.constraint d).shape := by
  rw [h.constraint]

theorem owner (h : SamePlan a b) (d : ConstraintId) : (b.constraint d).owner = (a.constraint d).owner := by
  rw [h.constraint]

theorem lengthTarget (h : SamePlan a b) (d : ConstraintId) :
    (b.constraint d).lengthTarget = (a.constraint d).lengthTarget := by rw [h.constraint]

theorem angleTarget (h : SamePlan a b) (d : ConstraintId) :
    (b.constraint d).angleTarget = (a.constraint d).angleTarget := by rw [h.constraint]

theorem system (h : SamePlan a b) (s : SystemId) : b.system s = a.system s := by
  unfold Assembly.system; rw [h.systems]

theorem byId? (h : SamePlan a b) (s : SystemId) (id : String) : b.byId? s id = a.byId? s id := by
  unfold Assembly.byId?; rw [h.system]

theorem cites (h : SamePlan a b) (r : Reference) : b.Cites r ↔ a.Cites r := by
  unfold Cites; simp only [h.lengthTarget, h.angleTarget]

theorem finds (h : SamePlan a b) (r : Reference) (f : Found) : b.Finds r f ↔ a.Finds r f := by
  unfold Finds; simp only [h.shape, h.byId?]

theorem nodesOf (h : SamePlan a b) (constraints : List ConstraintId) :
    b.nodesOf constraints = a.nodesOf constraints := by
  unfold Assembly.nodesOf; simp only [h.shape]

end SamePlan

theorem Recalls.trans {a b c : Assembly α} (h : Recalls a b) (hplan : SamePlan a b) (h' : Recalls b c) :
    Recalls a c := by
  intro f hf
  rcases h' f hf with hf | ⟨r, hr, hf⟩
  · exact h f hf
  · exact Or.inr ⟨r, (hplan.cites r).mp hr, (hplan.finds r f).mp hf⟩

/-- What reading newly remembers is what one of the references found. -/
theorem Consulted.finds {a b : Assembly α} {c : ConstraintId} {refs : List Reference} (h : Consulted c refs a b)
    {f : Found} (hf : f ∈ b.found) : f ∈ a.found ∨ ∃ r ∈ refs, a.Finds r f := by
  obtain ⟨new, hnew, hsound⟩ := h.found
  rw [hnew] at hf
  rcases List.mem_append.mp hf with hf | hf
  · obtain ⟨r, hr, hkey, howner, hfound⟩ := hsound f hf
    obtain ⟨s, howner', hid, hhas⟩ := lookUp_ok_iff.mp hfound
    obtain rfl := Option.some.inj (howner.symm.trans howner')
    exact Or.inr ⟨r, hr, hkey, hid, hhas⟩
  · exact Or.inl hf

theorem Consulted.recalls {a b : Assembly α} {c : ConstraintId} {refs : List Reference} (h : Consulted c refs a b)
    (hrefs : ∀ r ∈ refs, a.Cites r) : Recalls a b := by
  intro f hf
  rcases h.finds hf with hf | ⟨r, hr, hfinds⟩
  · exact Or.inl hf
  · exact Or.inr ⟨r, hrefs r hr, hfinds⟩

/-- `b` is `a` after runs that move nodes and save their states. -/
structure Relaxed (a b : Assembly α) : Prop extends SamePlan a b where
  recalls : Recalls a b

instance : IsPreorder (Assembly α) Relaxed where
  refl a := ⟨.refl a, fun _ hf => Or.inl hf⟩
  trans _ _ _ h h' := ⟨h.toSamePlan.trans h'.toSamePlan, h.recalls.trans h.toSamePlan h'.recalls⟩

theorem relaxed_setSaved (a : Assembly α) (c : ConstraintId) (saved : List (Saved α)) :
    Relaxed a (a.setConstraint c { a.constraint c with saved := saved }) := by
  refine ⟨⟨fun d => ?_, Table.size_le_set .., rfl, rfl, rfl, rfl⟩, fun _ hf => Or.inl hf⟩
  rw [constraint_setConstraint]
  split
  case isTrue hcd => rw [hcd]
  case isFalse => rfl

theorem relaxed_foldl {β : Type} {step : Assembly α → β → Assembly α} (hstep : ∀ a x, Relaxed a (step a x))
    (xs : List β) (a : Assembly α) : Relaxed a (xs.foldl step a) := by
  induction xs generalizing a with
  | nil => exact refl_of _ a
  | cons x rest ih => exact trans_of _ (hstep a x) (ih _)

variable [Scalar α]

theorem SamePlan.config {a b : Assembly α} (h : SamePlan a b) : b.config = a.config := by
  unfold Assembly.config; rw [h.configs]

theorem SamePlan.configOf {a b : Assembly α} (h : SamePlan a b) (d : ConstraintId) : b.configOf d = a.configOf d := by
  unfold Assembly.configOf
  rw [h.owner, h.ambient, h.config]
  simp only [h.system]

/-! ### Correcting -/

/-- `b` is `a` after corrections that move nodes of `ns` only. -/
structure Corrected (ns : List NodeId) (a b : Assembly α) : Prop extends SameDesign a b where
  outside : ∀ n, n ∉ ns → b.node n = a.node n
  recalls : Recalls a b

instance (ns : List NodeId) : IsPreorder (Assembly α) (Corrected ns) where
  refl a := ⟨.refl a, fun _ _ => rfl, fun _ hf => Or.inl hf⟩
  trans _ _ _ h h' := ⟨h.toSameDesign.trans h'.toSameDesign, fun n hn => (h'.outside n hn).trans (h.outside n hn),
    h.recalls.trans h.samePlan h'.recalls⟩

theorem Consulted.corrected {a b : Assembly α} {c : ConstraintId} {refs : List Reference} {ns : List NodeId}
    (h : Consulted c refs a b) (hrefs : ∀ r ∈ refs, a.Cites r) : Corrected ns a b :=
  ⟨h.toSameDesign, fun n _ => h.node n, h.recalls hrefs⟩

theorem corrected_setNode {ns : List NodeId} {n : NodeId} (hn : n ∈ ns) (a : Assembly α) (v : Node α) :
    Corrected ns a (a.setNode n v) := by
  refine ⟨⟨rfl, rfl, rfl, rfl, rfl⟩, fun m hm => ?_, fun _ hf => Or.inl hf⟩
  rw [node_setNode, if_neg]
  rintro rfl
  exact hm hn

/-- Forgets the corrections counted for the nodes of a list. -/
def clearBoosts (nodes : List NodeId) (a : Assembly α) : Assembly α :=
  nodes.foldl (fun a n => a.setNode n (a.node n).clearBoost) a

/-- A constraint saves the states of its nodes. -/
def save (a : Assembly α) (c : ConstraintId) : Assembly α :=
  a.setConstraint c { a.constraint c with
    saved := (a.constraint c).shape.nodes.map fun n => ⟨n, (a.node n).x, (a.node n).y, (a.node n).boost⟩ }

theorem prepare_eq (first : Bool) (a : Assembly α) (c : ConstraintId) :
    a.prepare first c = (if first then a.save c else a).clearBoosts (a.constraint c).shape.nodes := rfl

theorem corrected_clearBoosts {ns nodes : List NodeId} (h : nodes ⊆ ns) (a : Assembly α) :
    Corrected ns a (a.clearBoosts nodes) := by
  unfold clearBoosts
  induction nodes generalizing a with
  | nil => exact refl_of _ a
  | cons n rest ih =>
    obtain ⟨hn, hrest⟩ := List.cons_subset.mp h
    exact trans_of _ (corrected_setNode hn a _) (ih hrest _)

theorem clearBoost_clearBoost (v : Node α) : v.clearBoost.clearBoost = v.clearBoost := by
  unfold Node.clearBoost
  split
  · rfl
  · rfl

/-- Clearing boosts is seen at the nodes of the list only. -/
theorem node_clearBoosts (a : Assembly α) (nodes : List NodeId) (n : NodeId) :
    (a.clearBoosts nodes).node n = if n ∈ nodes then (a.node n).clearBoost else a.node n := by
  unfold clearBoosts
  induction nodes generalizing a with
  | nil => rfl
  | cons m rest ih =>
    rw [List.foldl_cons, ih, node_setNode]
    by_cases hmn : m = n
    · subst hmn
      simp [clearBoost_clearBoost]
    · simp [hmn, Ne.symm hmn]

theorem corrected_prepareAll {ns : List NodeId} {a : Assembly α} {constraints : List ConstraintId}
    (h : a.nodesOf constraints ⊆ ns) : Corrected ns a (a.prepareAll false constraints) := by
  unfold prepareAll
  induction constraints generalizing a with
  | nil => exact refl_of _ a
  | cons c rest ih =>
    obtain ⟨hc, hrest⟩ := List.append_subset.mp h
    have hfirst : Corrected ns a (a.prepare false c) := corrected_clearBoosts hc a
    refine trans_of _ hfirst (ih ?_)
    rw [hfirst.samePlan.nodesOf]
    exact hrest

/-! ### Preparing and restoring -/

theorem Corrected.relaxed {ns : List NodeId} {a b : Assembly α} (h : Corrected ns a b) : Relaxed a b :=
  ⟨h.samePlan, h.recalls⟩

theorem relaxed_setNode (a : Assembly α) (n : NodeId) (v : Node α) : Relaxed a (a.setNode n v) :=
  (corrected_setNode (List.mem_singleton_self n) a v).relaxed

theorem relaxed_prepare (first : Bool) (a : Assembly α) (c : ConstraintId) : Relaxed a (a.prepare first c) := by
  rw [prepare_eq]
  cases first with
  | true => exact trans_of _ (relaxed_setSaved a c _) (corrected_clearBoosts (List.Subset.refl _) _).relaxed
  | false => exact (corrected_clearBoosts (List.Subset.refl _) a).relaxed

theorem relaxed_prepareAll (first : Bool) (constraints : List ConstraintId) (a : Assembly α) :
    Relaxed a (a.prepareAll first constraints) := relaxed_foldl (relaxed_prepare first) constraints a

/-- Preparing a list of constraints clears the boosts of their nodes, and does nothing else to nodes. -/
theorem node_prepareAll (first : Bool) (constraints : List ConstraintId) (a : Assembly α) (n : NodeId) :
    (a.prepareAll first constraints).node n =
      if n ∈ a.nodesOf constraints then (a.node n).clearBoost else a.node n := by
  unfold prepareAll
  induction constraints generalizing a with
  | nil => rfl
  | cons c rest ih =>
    have hnode : (a.prepare first c).node n =
        if n ∈ (a.constraint c).shape.nodes then (a.node n).clearBoost else a.node n := by
      rw [prepare_eq, node_clearBoosts]
      cases first with
      | true => rfl
      | false => rfl
    have hnodes : a.nodesOf (c :: rest) = (a.constraint c).shape.nodes ++ a.nodesOf rest := rfl
    rw [List.foldl_cons, ih, (relaxed_prepare first a c).nodesOf, hnode, hnodes]
    by_cases hc : n ∈ (a.constraint c).shape.nodes
    · simp [hc, clearBoost_clearBoost]
    · simp [hc]

theorem relaxed_restore (a : Assembly α) (c : ConstraintId) : Relaxed a (a.restore c) :=
  relaxed_foldl (fun a (v : Saved α) => relaxed_setNode a v.node _) _ a

theorem relaxed_restoreAll (constraints : List ConstraintId) (a : Assembly α) :
    Relaxed a (a.restoreAll constraints) := relaxed_foldl relaxed_restore constraints a

end Assembly

namespace Act

open Assembly (Corrected Consulted Relaxed)

variable [Scalar α] {ns : List NodeId}

/-! ### Correcting, action by action -/

theorem keeps_targetLength (c : ConstraintId) : Keeps (Corrected (α := α) ns) (targetLength c) := fun a =>
  (runs_targetLength a c).mono fun _ _ h => h.1.corrected fun _ hr => ⟨c, Or.inl hr⟩

theorem keeps_targetAngle (c : ConstraintId) : Keeps (Corrected (α := α) ns) (targetAngle c) := fun a =>
  (runs_targetAngle a c).mono fun _ _ h => h.1.corrected fun _ hr => ⟨c, Or.inr hr⟩

theorem keeps_onEnds {β : Type} {first second : NodeId} (hfirst : first ∈ ns) (hsecond : second ∈ ns)
    (pass : Pass α (Ends α) β) : Keeps (Corrected ns) (onEnds first second pass) := by
  have hchange (e : Ends α) : Keeps (Corrected ns)
      (change fun a => (a.setNode first e.first).setNode second e.second) :=
    keeps_change fun a => trans_of _ (Assembly.corrected_setNode hfirst a _) (Assembly.corrected_setNode hsecond _ _)
  refine keeps_read fun a => ?_
  cases pass ⟨a.node first, a.node second⟩ with
  | ok b e => exact (hchange e).bind (fun _ => keeps_pure b) a
  | error fault e => exact (hchange e).bind (fun _ => keeps_throw fault) a

theorem keeps_onCorner {β : Type} {apex ray arm : NodeId} (hapex : apex ∈ ns) (hray : ray ∈ ns) (harm : arm ∈ ns)
    (pass : Pass α (Corner α) β) : Keeps (Corrected ns) (onCorner apex ray arm pass) := by
  have hchange (k : Corner α) : Keeps (Corrected ns)
      (change fun a => ((a.setNode apex k.apex).setNode ray k.ray).setNode arm k.arm) :=
    keeps_change fun a => trans_of _ (trans_of _ (Assembly.corrected_setNode hapex a _)
      (Assembly.corrected_setNode hray _ _)) (Assembly.corrected_setNode harm _ _)
  refine keeps_read fun a => ?_
  cases pass ⟨a.node apex, a.node ray, a.node arm⟩ with
  | ok b k => exact (hchange k).bind (fun _ => keeps_pure b) a
  | error fault k => exact (hchange k).bind (fun _ => keeps_throw fault) a

/-- Correcting a constraint moves its own nodes at most. -/
theorem runs_correctOne {a : Assembly α} {c : ConstraintId} (h : (a.constraint c).shape.nodes ⊆ ns) :
    Runs (correctOne c) a fun _ b => Corrected ns a b := by
  refine runs_read ?_
  cases hshape : (a.constraint c).shape with
  | pair first second direction =>
    rw [hshape] at h
    have hfirst : first ∈ ns := h (by simp [Shape.nodes])
    have hsecond : second ∈ ns := h (by simp [Shape.nodes])
    have hmeet (pass : α → Pass α (Ends α) Bool) (target? : Option α) :
        Keeps (Corrected ns) (meet (fun target => onEnds first second (pass target)) target?) := by
      cases target? with
      | some target => exact keeps_onEnds hfirst hsecond (pass target)
      | none => exact keeps_pure true
    exact (keeps_targetAngle c).bind (fun angle? => (hmeet _ angle?).bind fun angleMet =>
      (keeps_targetLength c).bind fun length? => (hmeet _ length?).bind fun lengthMet => keeps_pure _) a
  | triple apex ray arm =>
    rw [hshape] at h
    cases htarget : (a.constraint c).angleTarget with
    | none => exact keeps_pure true a
    | some t =>
      dsimp only
      split
      · exact keeps_pure true a
      · refine runs_bind ((runs_evaluate a c t).mono fun _ b hread => ?_)
        -- reading the target adds to the memory what a target of the constraint refers to
        have hrefs : ∀ r ∈ t.references, a.Cites r := fun r hr => ⟨c, Or.inr (by rwa [htarget])⟩
        refine then_of_rel (hread.1.corrected hrefs) fun target => ?_
        exact keeps_onCorner (h (by simp [Shape.nodes])) (h (by simp [Shape.nodes])) (h (by simp [Shape.nodes])) _ b

theorem runs_correctAll {a : Assembly α} {constraints : List ConstraintId} (h : a.nodesOf constraints ⊆ ns) :
    Runs (correctAll constraints) a fun _ b => Corrected ns a b := by
  induction constraints generalizing a with
  | nil => exact keeps_pure true a
  | cons c rest ih =>
    obtain ⟨hc, hrest⟩ := List.append_subset.mp h
    refine runs_bind ((runs_correctOne hc).mono fun _ b hab => then_of_rel hab fun met => runs_bind_pure ?_)
    exact ih (by rwa [hab.samePlan.nodesOf])

/-- One sweep, seen from an assembly `o` that its preparation keeps to: if the sweeps after it move the nodes of the
constraints at most, so do all of them. -/
theorem runs_sweepsFrom_succ {s : SystemId} {o a : Assembly α} {constraints : List ConstraintId} {left done : Nat}
    (hprepared : Corrected ns o (a.prepareAll (done == 0) constraints)) (h : o.nodesOf constraints ⊆ ns)
    (hlater : ∀ b : Assembly α, b.nodesOf constraints ⊆ ns →
      Runs (sweepsFrom s constraints left (done + 1)) b fun _ c => Corrected ns b c) :
    Runs (sweepsFrom s constraints (left + 1) done) a fun _ b => Corrected ns o b := by
  have hnodes : (a.prepareAll (done == 0) constraints).nodesOf constraints ⊆ ns := by
    rwa [hprepared.samePlan.nodesOf]
  refine runs_bind (runs_after_change ((runs_correctAll hnodes).mono fun _ b hab => ?_))
  have hob : Corrected ns o b := trans_of _ hprepared hab
  refine then_of_rel hob fun met => runs_read ?_
  split
  · exact runs_after_report (keeps_pure _ b)
  · split
    · exact keeps_pure _ b
    · have hb : b.nodesOf constraints ⊆ ns := by rwa [hob.samePlan.nodesOf]
      exact hlater b hb

/-- The sweeps of a run after the first move the nodes of the constraints at most. -/
theorem runs_sweepsFrom_later {s : SystemId} {a : Assembly α} {constraints : List ConstraintId} {left done : Nat}
    (h : a.nodesOf constraints ⊆ ns) :
    Runs (sweepsFrom s constraints left (done + 1)) a fun _ b => Corrected ns a b := by
  induction left generalizing a done with
  | zero => exact keeps_pure _ a
  | succ left ih => exact runs_sweepsFrom_succ (Assembly.corrected_prepareAll h) h fun b hb => ih hb

/-- After the first preparation, a run with at least one sweep moves the nodes of the constraints at most. -/
theorem runs_sweepsFrom {s : SystemId} {a : Assembly α} {constraints : List ConstraintId} {left : Nat} :
    Runs (sweepsFrom s constraints (left + 1) 0) a fun _ b =>
      Corrected (a.nodesOf constraints) (a.prepareAll true constraints) b := by
  have hplan := (Assembly.relaxed_prepareAll true constraints a).toSamePlan
  have hnodes : (a.prepareAll true constraints).nodesOf constraints ⊆ a.nodesOf constraints := by
    rw [hplan.nodesOf]
    exact List.Subset.refl _
  exact runs_sweepsFrom_succ (refl_of _ _) hnodes fun b hb => runs_sweepsFrom_later hb

/-! ### Runs and reports -/

theorem runs_after_rollback {β : Type} {s : SystemId} {a : Assembly α} {f : Unit → Act α β}
    {Q : Except (Fault α) β → Assembly α → Prop} (h : Runs (f ()) (a.restoreAll (a.system s).constraints) Q) :
    Runs (rollback s >>= f) a Q := runs_bind (runs_traced (runs_read (runs_change h)))

theorem Keeps.relaxed {β : Type} {p : Act α β} (h : Keeps (Corrected ns) p) : Keeps Relaxed p :=
  fun a => (h a).mono fun _ _ hab => hab.relaxed

theorem relaxed_correctOne (c : ConstraintId) : Keeps (α := α) Relaxed (correctOne c) := fun _ =>
  (runs_correctOne (List.Subset.refl _)).mono fun _ _ hab => hab.relaxed

theorem relaxed_sweepsFrom (s : SystemId) (constraints : List ConstraintId) (left : Nat) :
    Keeps (α := α) Relaxed (sweepsFrom s constraints left 0) := by
  intro a
  cases left with
  | zero => exact keeps_pure _ a
  | succ left =>
    exact runs_sweepsFrom.mono fun _ b hab =>
      trans_of _ (Assembly.relaxed_prepareAll true constraints a) hab.relaxed

theorem relaxed_rollback (s : SystemId) : Keeps (α := α) Relaxed (rollback s) :=
  Keeps.traced (keeps_read fun a => runs_change (Assembly.relaxed_restoreAll _ a))

theorem relaxed_correct (s : SystemId) : Keeps (α := α) Relaxed (correct s) := by
  refine Keeps.traced (keeps_read fun a => ?_)
  refine Keeps.bind (Keeps.outcome (relaxed_sweepsFrom s _ _)) (fun verdict => ?_) a
  cases verdict with
  | error fault => exact (relaxed_rollback s).bind fun _ => keeps_throw fault
  | ok verdict =>
    cases verdict with
    | unmet done => exact (relaxed_rollback s).bind fun _ => (keeps_report _ _ _).bind fun _ => keeps_pure 0
    | met done => exact (keeps_report _ _ _).bind fun _ => keeps_pure done

theorem relaxed_targetLength (c : ConstraintId) : Keeps (α := α) Relaxed (targetLength c) :=
  have hnodes : Keeps (Corrected []) (targetLength c) := keeps_targetLength c
  hnodes.relaxed

theorem relaxed_targetAngle (c : ConstraintId) : Keeps (α := α) Relaxed (targetAngle c) :=
  have hnodes : Keeps (Corrected []) (targetAngle c) := keeps_targetAngle c
  hnodes.relaxed

/-- Measuring a constraint moves nothing. -/
theorem keeps_lengthResidual (c : ConstraintId) : Keeps (Corrected (α := α) ns) (lengthResidual c) := by
  refine keeps_read fun a => ?_
  dsimp only
  split
  · exact keeps_pure [] a
  · refine (keeps_targetLength c).bind (fun target? => ?_) a
    cases target? with
    | none => exact keeps_pure []
    | some target => exact fun b => runs_bind_pure (runs_ownLength (refl_of _ b))

theorem keeps_angleResidual (c : ConstraintId) : Keeps (Corrected (α := α) ns) (angleResidual c) := by
  refine keeps_read fun a => (keeps_targetAngle c).bind (fun target? => ?_) a
  cases target? with
  | none => exact keeps_pure []
  | some target => exact fun b => runs_bind_pure (runs_ownAngle (refl_of _ b))

theorem keeps_residualsOf (c : ConstraintId) : Keeps (Corrected (α := α) ns) (residualsOf c) :=
  (keeps_lengthResidual c).bind fun _ => (keeps_angleResidual c).bind fun _ => keeps_pure _

theorem keeps_residuals (s : SystemId) : Keeps (Corrected (α := α) ns) (residuals s) := by
  have hall (constraints : List ConstraintId) : Keeps (Corrected (α := α) ns) (residualsOfAll constraints) := by
    induction constraints with
    | nil => exact keeps_pure []
    | cons c rest ih => exact (keeps_residualsOf c).bind fun _ => ih.bind fun _ => keeps_pure _
  exact Keeps.traced (keeps_read fun a => (hall _).bind (fun _ => keeps_pure _) a)

theorem relaxed_residualsOf (c : ConstraintId) : Keeps (α := α) Relaxed (residualsOf c) :=
  have hnodes : Keeps (Corrected []) (residualsOf c) := keeps_residualsOf c
  hnodes.relaxed

theorem relaxed_residuals (s : SystemId) : Keeps (α := α) Relaxed (residuals s) :=
  have hnodes : Keeps (Corrected []) (residuals s) := keeps_residuals s
  hnodes.relaxed

theorem relaxed_solve (s : SystemId) (limit : Option Int) : Keeps (α := α) Relaxed (solve s limit) :=
  Keeps.traced ((relaxed_correct s).bind fun _ => (relaxed_residuals s).bind fun _ =>
    keeps_read fun a => keeps_pure _ a)

theorem relaxed_solveAnnounced (s : SystemId) : Keeps (α := α) Relaxed (solveAnnounced s) :=
  keeps_read fun a => (keeps_report _ _ _).bind (fun _ => (relaxed_solve s none).bind fun _ =>
    (keeps_report _ _ _).bind fun _ => keeps_pure _) a

/-- Describing a constraint moves nothing. -/
theorem keeps_describe (c : ConstraintId) : Keeps (Corrected (α := α) ns) (describe c) := by
  refine keeps_read fun a => ?_
  cases hshape : (a.constraint c).shape with
  | pair first second direction =>
    simp only [hshape]
    exact (keeps_ofExcept _).bind (fun _ => (keeps_ofExcept _).bind fun _ => (keeps_ofExcept _).bind fun _ =>
      (keeps_targetLength c).bind fun _ => (keeps_targetAngle c).bind fun _ => keeps_pure _) a
  | triple apex ray arm =>
    simp only [hshape]
    exact (keeps_ofExcept _).bind (fun _ => (keeps_ofExcept _).bind fun _ => (keeps_ofExcept _).bind fun _ =>
      (keeps_targetAngle c).bind fun _ => keeps_pure _) a

theorem keeps_log (s : SystemId) (level : Option Level) : Keeps (Corrected (α := α) ns) (log s level) := by
  have hall (constraints : List ConstraintId) : Keeps (Corrected (α := α) ns) (constraints.forM fun c => do
      report .system (level.getD .info) (.description (← describe c))) := by
    induction constraints with
    | nil => exact keeps_pure ()
    | cons c rest ih =>
      exact Keeps.bind ((keeps_describe c).bind fun _ => keeps_report _ _ _) fun _ => ih
  exact Keeps.traced (keeps_read fun a => hall _ a)

theorem relaxed_describe (c : ConstraintId) : Keeps (α := α) Relaxed (describe c) :=
  have hnodes : Keeps (Corrected []) (describe c) := keeps_describe c
  hnodes.relaxed

theorem relaxed_log (s : SystemId) (level : Option Level) : Keeps (α := α) Relaxed (log s level) :=
  have hnodes : Keeps (Corrected []) (log s level) := keeps_log s level
  hnodes.relaxed

end Act

end Linkage
