import Linkage.Proofs.Drafting
import Linkage.Proofs.Neighbours

/-!
# Linkage.Proofs.Insertion — a constraint that wants nothing

A constraint without targets answers that it was met and moves nothing, but a run prepares it and puts its nodes back like
any other.  So a system with such a constraint somewhere in its order and the system without it go side by side
(`Inserted.abreast`): their nodes differ at most in boosts that preparing clears in the one and not in the other, which
are those of nodes that no other constraint joins, and these boosts have no part in any correction.  Relaxing has the
same answer or the same failure and leaves the nodes in the same places (`correct_inserted`).
-/

namespace Linkage

variable {α : Type} [Scalar α]

namespace Assembly

/-! ### With the constraint and without it -/

/-- The system `s` has the constraint `c` somewhere in its order in `b` and not there in `a`.  The constraint has no
identifier, wants nothing and has a shape on nodes of the system.  All else is the same, up to the states that constraints
saved and the order of nodes. -/
structure Inserted (s : SystemId) (c : ConstraintId) (shape : Shape) (a b : Assembly α) : Prop where
  order : ∃ before after, (a.system s).constraints = before ++ after ∧ (b.system s).constraints = before ++ c :: after
  id : (b.constraint c).id = none
  lengthTarget : (b.constraint c).lengthTarget = none
  angleTarget : (b.constraint c).angleTarget = none
  shape : (b.constraint c).shape = shape
  listed : ∀ n, n ∈ (b.system s).nodes ↔ n ∈ (a.system s).nodes
  config : b.config (b.system s).config = a.config (a.system s).config
  node : ∀ n, b.node n = a.node n
  constraint : ∀ e ∈ (a.system s).constraints, b.constraint e = { a.constraint e with saved := (b.constraint e).saved }
  readings : b.readings = a.readings

/-- The assembly with a new constraint that has no identifier and wants nothing, registered with a system and brought to a
place in its order. -/
def insert (a : Assembly α) (s : SystemId) (place : Nat) (shape : Shape) : Assembly α :=
  let c := a.constraints.size
  let a' : Assembly α := { a with constraints := a.constraints.push ⟨none, shape, none, [], none, none⟩ }
  (a'.join s c).reorder s ((a.system s).constraints.take place ++ c :: (a.system s).constraints.drop place)

section Insert

variable {a : Assembly α} {s : SystemId} {made : List Reference} (place : Nat) (shape : Shape)

theorem perm_insert (order : List ConstraintId) (c : ConstraintId) :
    (order.take place ++ c :: order.drop place).Perm (order ++ [c]) := by
  have hsplit := List.take_append_drop place order
  refine List.perm_middle.trans ?_
  rw [hsplit]
  exact (List.perm_append_singleton c order).symm

theorem Coherent.insert (h : Coherent made a) : Coherent made (a.insert s place shape) := by
  set k : Constraint α := ⟨none, shape, none, [], none, none⟩ with hk
  set a' : Assembly α := { a with constraints := a.constraints.push k } with ha'
  have hfresh : k.Fresh shape.nodes .absent .absent := ⟨rfl, rfl, ⟨.ok 0, rfl⟩, ⟨.ok 0, rfl⟩⟩
  have hnew : a'.constraint a.constraints.size = k := (constraint_push a k _).trans (if_pos rfl)
  have hfree : a'.refusal? s a.constraints.size = none := by
    refine refusal?_eq_none_iff.mpr ⟨Or.inl (by rw [hnew]), fun id hid => ?_⟩
    rw [hnew] at hid
    cases hid
  have hjoined : Registration [] a (a'.join s a.constraints.size) fun t => if s = t then shape.nodes else [] :=
    .constraint a' s _ (quiet_push a hfresh) hfree rfl fun t => by rw [hnew]
  refine (hjoined.coherent h (List.nil_subset _)).reorder ?_
  rw [system_join, if_pos rfl]
  exact perm_insert place _ _

/-- Inserting a constraint on nodes of the system is what `Inserted` says. -/
theorem Coherent.inserted_insert (h : Coherent made a) (hshape : ∀ n ∈ shape.nodes, n ∈ (a.system s).nodes) :
    Inserted s a.constraints.size shape a (a.insert s place shape) := by
  set k : Constraint α := ⟨none, shape, none, [], none, none⟩ with hk
  set a' : Assembly α := { a with constraints := a.constraints.push k } with ha'
  have hnew : a'.constraint a.constraints.size = k := (constraint_push a k _).trans (if_pos rfl)
  -- the new constraint takes the next number, so that the others keep theirs
  have hconstraint (e : ConstraintId) : (a.insert s place shape).constraint e =
      if e = a.constraints.size then { k with owner := some s } else a.constraint e := by
    refine (constraint_join a' s a.constraints.size e).trans ?_
    by_cases he : e = a.constraints.size
    · rw [if_pos he, if_pos he.symm, hnew]
    · rw [if_neg he, if_neg (Ne.symm he)]
      exact (constraint_push a k e).trans (if_neg he)
  have hself : (a.insert s place shape).constraint a.constraints.size = { k with owner := some s } := by
    rw [hconstraint, if_pos rfl]
  have hsystem : (a.insert s place shape).system s = { a.system s with
      nodes := shape.nodes.foldl listNode (a.system s).nodes
      constraints := (a.system s).constraints.take place ++ a.constraints.size :: (a.system s).constraints.drop place } := by
    refine (system_reorder s).trans ?_
    rw [if_pos rfl, system_join, if_pos rfl, hnew]
    rfl
  obtain ⟨_, _, hjoin⟩ := join_eq a' s a.constraints.size
  have hnode : (a'.join s a.constraints.size).node = a.node := by rw [hjoin]; rfl
  have hconfig : (a'.join s a.constraints.size).config = a.config := by rw [hjoin]; rfl
  have hreadings : (a'.join s a.constraints.size).readings = a.readings := by rw [hjoin]
  exact {
    order := ⟨_, _, (List.take_append_drop place _).symm, by rw [hsystem]⟩
    id := by rw [hself]
    lengthTarget := by rw [hself]
    angleTarget := by rw [hself]
    shape := by rw [hself]
    listed := fun n => by
      rw [hsystem]
      exact mem_foldl_listNode.trans (or_iff_left_of_imp (hshape n))
    config := by
      rw [hsystem]
      exact congrFun hconfig (a.system s).config
    node := congrFun hnode
    constraint := fun e he => by
      rw [hconstraint, if_neg (Nat.ne_of_lt (h.consistent.made s e he))]
    readings := hreadings }

end Insert

/-- The node belongs to the shape, and no constraint of the system joins it. -/
def Lone (a : Assembly α) (s : SystemId) (shape : Shape) (n : NodeId) : Prop :=
  n ∈ shape.nodes ∧ n ∉ a.nodesOf (a.system s).constraints

/-- Nodes are equal, but for lone ones, which have their boosts in the first assembly and are cleared in the second. -/
def withLone (a : Assembly α) (s : SystemId) (shape : Shape) : Comparison α :=
  { Comparison.exact (fun n => ¬a.Lone s shape n) 0 with
    rest := fun n v w => v = a.node n ∧ w = (a.node n).clearBoost }

end Assembly

theorem Node.clearBoost_of_boost {v : Node α} (h : v.boost = 0) : v.clearBoost = v := by
  unfold clearBoost
  split
  · rfl
  · rw [← h]

/-- The target is no callable, or one that cannot tell whether the boosts of the nodes in `lone` are cleared.  It says
nothing where these boosts are cleared already. -/
def Target.Indifferent (lone : NodeId → Prop) (node : NodeId → Node α) (t : Target α) : Prop :=
  t.IfCallable fun read => ∀ v v' : Sight α, v'.owner = v.owner → v'.moment = v.moment →
    (∀ n, ¬lone n → v'.node n = v.node n) → (∀ n, lone n → v.node n = node n ∧ v'.node n = (node n).clearBoost) →
    read v' = read v

namespace Target

variable {lone : NodeId → Prop} {node : NodeId → Node α} {t : Target α}

theorem indifferent_of_clear (h : ∀ n, lone n → (node n).clearBoost = node n) (t : Target α) :
    t.Indifferent lone node := by
  refine ifCallable_of_forall (fun read v v' howner hmoment hout hin => ?_) t
  have hnode : v'.node = v.node := by
    funext n
    by_cases hn : lone n
    · rw [(hin n hn).1, (hin n hn).2, h n hn]
    · exact hout n hn
  obtain ⟨node', owner', moment'⟩ := v'
  obtain rfl : node' = v.node := hnode
  obtain rfl : owner' = v.owner := howner
  obtain rfl : moment' = v.moment := hmoment
  rfl

theorem Indifferent.respects {a : Assembly α} {s : SystemId} {shape : Shape}
    (h : t.Indifferent (a.Lone s shape) a.node) : t.Respects (a.withLone s shape) := by
  refine h.mono fun read hread v v' howner _ hnode hrest hmoment => ?_
  have hsame : (v'.moment : Int) = v.moment + 0 := hmoment
  refine hread v v' howner (by omega) (fun n hn => (hnode n hn).symm) fun n hn => hrest n ?_
  exact not_not_intro hn

end Target

namespace Assembly

namespace Inserted

variable {s : SystemId} {a b : Assembly α} {c : ConstraintId} {shape : Shape} (h : Inserted s c shape a b)
include h

theorem mem_constraints_iff (e : ConstraintId) :
    e ∈ (b.system s).constraints ↔ e ∈ (a.system s).constraints ∨ e = c := by
  obtain ⟨before, after, ha, hb⟩ := h.order
  rw [ha, hb]
  simp only [List.mem_append, List.mem_cons]
  tauto

theorem sameConstraints : SameConstraints s a b where
  mem e he := (h.mem_constraints_iff e).mpr (Or.inl he)
  named e he hid := by
    refine ((h.mem_constraints_iff e).mp he).resolve_right ?_
    rintro rfl
    exact hid h.id
  constraint := h.constraint
  config := h.config

theorem mem_nodesOf_iff (n : NodeId) : n ∈ b.nodesOf (b.system s).constraints ↔
    n ∈ a.nodesOf (a.system s).constraints ∨ n ∈ shape.nodes := by
  unfold nodesOf
  rw [List.mem_flatMap, List.mem_flatMap]
  constructor
  · rintro ⟨e, he, hn⟩
    obtain he | rfl := (h.mem_constraints_iff e).mp he
    · rw [h.constraint e he] at hn
      exact Or.inl ⟨e, he, hn⟩
    · rw [h.shape] at hn
      exact Or.inr hn
  · rintro (⟨e, he, hn⟩ | hn)
    · refine ⟨e, (h.mem_constraints_iff e).mpr (Or.inl he), ?_⟩
      rw [h.constraint e he]
      exact hn
    · refine ⟨c, (h.mem_constraints_iff c).mpr (Or.inr rfl), ?_⟩
      rw [h.shape]
      exact hn

/-- A node that is not lone is cleared with the constraint where it is cleared without it. -/
theorem mem_nodesOf_iff_of_not_lone {n : NodeId} (hn : ¬a.Lone s shape n) :
    n ∈ b.nodesOf (b.system s).constraints ↔ n ∈ a.nodesOf (a.system s).constraints := by
  rw [h.mem_nodesOf_iff, or_iff_left_of_imp]
  intro hjoined
  by_contra hout
  exact hn ⟨hjoined, hout⟩

/-- Clearing boosts with the constraint and without it leaves the two abreast, if they are, or would be but for lone nodes
that have yet to be cleared. -/
theorem abreast_clearBoosts {a' b' : Assembly α} (hcoherent : ∃ made, Coherent made a')
    (hcoherent' : ∃ made, Coherent made b')
    (htask : ∀ e ∈ (a.system s).constraints, SameTask (a.withLone s shape) e a' b')
    (hnode : ∀ n, ¬a.Lone s shape n → a'.node n = b'.node n)
    (hrest : ∀ n, a.Lone s shape n → a'.node n = a.node n ∧ (b'.node n).clearBoost = (a.node n).clearBoost)
    (hreadings : b'.readings = a'.readings) :
    Abreast (a.withLone s shape) (a.system s).constraints (a'.clearBoosts (a.nodesOf (a.system s).constraints))
      (b'.clearBoosts (b.nodesOf (b.system s).constraints)) := by
  have hclear (o : Assembly α) (nodes : List NodeId) : Relaxed o (o.clearBoosts nodes) :=
    (corrected_clearBoosts (List.Subset.refl nodes) o).relaxed
  refine {
    coherent := hcoherent.imp fun _ hmade => hmade.relaxed (hclear a' _)
    coherent' := hcoherent'.imp fun _ hmade => hmade.relaxed (hclear b' _)
    task := fun e he => (htask e he).samePlan (hclear a' _).toSamePlan (hclear b' _).toSamePlan
    node := fun n (hn : ¬a.Lone s shape n) => ?_
    rest := fun n hn => ?_
    readings := ?_ }
  -- both clear the same nodes but for the lone ones
  · change _ = _
    rw [node_clearBoosts, node_clearBoosts, hnode n hn]
    exact if_congr (h.mem_nodesOf_iff_of_not_lone hn).symm rfl rfl
  · have hlone : a.Lone s shape n := not_not.mp hn
    rw [node_clearBoosts, node_clearBoosts, if_neg hlone.2, if_pos ((h.mem_nodesOf_iff n).mpr (Or.inr hlone.1))]
    exact hrest n hlone
  · rw [Abreast.readings_clearBoosts, Abreast.readings_clearBoosts, hreadings]
    exact (Int.add_zero _).symm

/-- Once the boosts are cleared, both run abreast. -/
theorem abreast (ha : ∃ made, Coherent made a) (hb : ∃ made, Coherent made b)
    (hindifferent : ∀ e ∈ (a.system s).constraints, ∀ t ∈ (a.constraint e).targets,
      t.Indifferent (a.Lone s shape) a.node) :
    Abreast (a.withLone s shape) (a.system s).constraints (a.clearBoosts (a.nodesOf (a.system s).constraints))
      (b.clearBoosts (b.nodesOf (b.system s).constraints)) := by
  refine h.abreast_clearBoosts ha hb (fun e he => ?_) (fun n _ => (h.node n).symm)
    (fun n _ => ⟨rfl, by rw [h.node]⟩) h.readings
  obtain ⟨made, hmade⟩ := ha
  obtain ⟨made', hmade'⟩ := hb
  have hseen : ∀ d ∈ (a.system s).constraints, ∀ n ∈ (a.constraint d).shape.nodes, ¬a.Lone s shape n :=
    fun d hd n hn hlone => hlone.2 (List.mem_flatMap.mpr ⟨d, hd, hn⟩)
  exact h.sameConstraints.sameTask hmade.consistent he hmade'.consistent (hseen e he)
    (fun t _ r _ d hd => hseen d (hmade.consistent.mem_of_lookUp he hd)) fun t ht => (hindifferent e he t ht).respects

omit h in
/-- Running abreast, all nodes are in the same places. -/
theorem place {constraints : List ConstraintId} {a' b' : Assembly α} (hab : Abreast (a.withLone s shape) constraints a' b')
    (n : NodeId) : (b'.node n).x = (a'.node n).x ∧ (b'.node n).y = (a'.node n).y := by
  by_cases hn : a.Lone s shape n
  · obtain ⟨hv, hw⟩ := hab.rest n (not_not_intro hn)
    rw [hv, hw]
    unfold Node.clearBoost
    split
    · exact ⟨rfl, rfl⟩
    · exact ⟨rfl, rfl⟩
  · have hnode : a'.node n = b'.node n := hab.node n hn
    rw [hnode]
    exact ⟨rfl, rfl⟩

/-- The constraint takes no degree of freedom. -/
theorem freedom (ha : Consistent a) (hb : Consistent b) : b.freedom s = a.freedom s := by
  have hnodes : (b.system s).nodes.Perm (a.system s).nodes :=
    (List.perm_ext_iff_of_nodup (hb.nodup s) (ha.nodup s)).mpr h.listed
  have hnode : b.node = a.node := funext h.node
  obtain ⟨before, after, horder, horder'⟩ := h.order
  -- the count runs over the constraints in order, and the one in the middle adds nothing
  have hsame : ∀ e ∈ before ++ after, ∀ total : Nat,
      total + (b.constraint e).lengthTarget.isSome.toNat + (b.constraint e).angleTarget.isSome.toNat =
        total + (a.constraint e).lengthTarget.isSome.toNat + (a.constraint e).angleTarget.isSome.toNat := by
    intro e he total
    rw [h.constraint e (by rwa [horder])]
  have hbefore := List.foldl_ext _ _ 0 fun total e (he : e ∈ before) => hsame e (List.mem_append_left _ he) total
  have hafter (total : Nat) := List.foldl_ext _ _ total fun total e (he : e ∈ after) =>
    hsame e (List.mem_append_right _ he) total
  unfold Assembly.freedom
  simp only [hnode, hnodes.countP_eq, horder, horder', List.foldl_append, List.foldl_cons, h.lengthTarget, h.angleTarget,
    hbefore, hafter, Option.isSome_none, Bool.toNat_false, Nat.add_zero]

end Inserted

end Assembly

namespace Act

open Assembly (Abreast Coherent Inserted Lone Relaxed withLone)

variable {β γ δ : Type} {a b : Assembly α} {c : ConstraintId}

/-! ### Correcting it -/

/-- Correcting a constraint without targets does nothing. -/
theorem runs_correctOne_idle (hlength : (a.constraint c).lengthTarget = none)
    (hangle : (a.constraint c).angleTarget = none) : Runs (correctOne c) a fun r b => r = .ok true ∧ b = a := by
  have hnoAngle : Runs (targetAngle c) a fun r b => r = .ok none ∧ b = a := by
    refine runs_read ?_
    rw [hangle]
    exact runs_pure ⟨rfl, rfl⟩
  have hnoLength : Runs (targetLength c) a fun r b => r = .ok none ∧ b = a := by
    refine runs_read ?_
    rw [hlength]
    exact runs_pure ⟨rfl, rfl⟩
  refine runs_read ?_
  dsimp only
  cases (a.constraint c).shape with
  | pair first second direction =>
    refine runs_bind (hnoAngle.mono ?_)
    rintro _ _ ⟨rfl, rfl⟩
    rw [then_ok]
    refine runs_bind (runs_pure ?_)
    rw [then_ok]
    refine runs_bind (hnoLength.mono ?_)
    rintro _ _ ⟨rfl, rfl⟩
    rw [then_ok]
    refine runs_bind (runs_pure ?_)
    rw [then_ok]
    exact runs_pure ⟨rfl, rfl⟩
  | triple apex ray arm =>
    rw [hangle]
    exact runs_pure ⟨rfl, rfl⟩

omit [Scalar α] in
/-- What the second does first can be left out if it does nothing. -/
theorem concur_aside {F : Fault α → Fault α → Prop} {T : β → γ → Assembly α → Assembly α → Prop} {p : Act α β}
    {q : Act α δ} {g : δ → Act α γ} {x : δ} (hq : Runs q b fun r b' => r = .ok x ∧ b' = b)
    (h : Concur F T p (g x) a b) : Concur F T p (q >>= g) a b := by
  refine Runs.mono h fun r a' hg => runs_bind (hq.mono ?_)
  rintro _ _ ⟨rfl, rfl⟩
  exact hg

/-- A pass over the constraints of a system, without one that wants nothing and with it. -/
theorem concur_correctAll_inserted {w : Comparison α} {constraints before after : List ConstraintId}
    (h : Abreast w constraints a b) (hsub : before ++ after ⊆ constraints)
    (hlength : (b.constraint c).lengthTarget = none) (hangle : (b.constraint c).angleTarget = none) :
    Concur Eq (fun met met' a' b' => met' = met ∧ Abreast w constraints a' b') (correctAll (before ++ after))
      (correctAll (before ++ c :: after)) a b := by
  -- by induction on the constraints before the inserted one; those after it run abreast
  induction before generalizing a b with
  | nil =>
    refine concur_aside (runs_correctOne_idle hlength hangle) ?_
    simp only [Bool.true_and, bind_pure]
    refine (concur_of_agree (fun _ => rfl) (agree_correctAll_abreast h hsub)).mono ?_
    rintro met met' a' b' ⟨hmet, h'⟩
    exact ⟨hmet.symm, h'⟩
  | cons e before ih =>
    obtain ⟨he, hsub⟩ := List.cons_subset.mp hsub
    have hfirst := (concur_of_agree (F := Eq) (fun _ => rfl) (agree_correctOne h he)).framed (relaxed_correctOne e)
      (relaxed_correctOne e)
    refine concur_bind hfirst ?_
    rintro met met' a' b' ⟨⟨hmet, h'⟩, -, hb⟩
    refine concur_bind (ih h' hsub (by rw [hb.lengthTarget, hlength]) (by rw [hb.angleTarget, hangle])) ?_
    rintro later later' a'' b'' ⟨hlater, h''⟩
    refine concur_pure ⟨?_, h''⟩
    rw [hmet, hlater]

/-! ### Whole runs -/

/-- Relaxing concurs without the constraint and with it. -/
theorem concur_correct_inserted {s : SystemId} {shape : Shape} (h : Inserted s c shape a b) (ha : ∃ made, Coherent made a)
    (hb : ∃ made, Coherent made b)
    (hindifferent : ∀ e ∈ (a.system s).constraints, ∀ t ∈ (a.constraint e).targets,
      t.Indifferent (a.Lone s shape) a.node) :
    Concur Eq (fun k k' a' b' => k' = k ∧ (1 ≤ k → Abreast (a.withLone s shape) (a.system s).constraints a' b'))
      (correct s) (correct s) a b := by
  refine concur_correct_abreast (by rw [h.config]) h.listed (fun a' b' hab n _ => ?_) (fun a' b' hab _ _ => ?_)
    (fun a' b' hab _ hb' => ?_) (h.abreast ha hb hindifferent)
  · obtain ⟨hx, hy⟩ := Inserted.place hab n
    unfold Node.isFinite
    rw [hx, hy]
  -- clearing before the next sweep finds lone nodes uncleared again in one of the two
  · refine h.abreast_clearBoosts hab.coherent hab.coherent' hab.task (fun n hn => hab.node n hn) (fun n hn => ?_) ?_
    · obtain ⟨hv, hw⟩ := hab.rest n (not_not_intro hn)
      exact ⟨hv, by rw [hw, Assembly.clearBoost_clearBoost]⟩
    · have hreadings : (b'.readings : Int) = a'.readings + 0 := hab.readings
      omega
  · obtain ⟨before, after, horder, horder'⟩ := h.order
    rw [horder] at hab ⊢
    rw [horder']
    exact concur_correctAll_inserted hab (List.Subset.refl _) (by rw [hb'.lengthTarget, h.lengthTarget])
      (by rw [hb'.angleTarget, h.angleTarget])

/-- Put a constraint that has no identifier and wants nothing, a pair or a triple, anywhere in the order of a system, on
nodes that the system has already; there is a cap of one sweep or more, and no callable target that can tell whether the
boosts of those of its nodes are cleared that no other constraint joins.  Relaxing has the answer or the failure that it
has without the constraint and leaves every node in the same place, and the system has as many degrees of freedom. -/
theorem correct_inserted (st st' : Session α) (s : SystemId) (place : Nat) (shape : Shape)
    (hst : ∃ made, Coherent made st.assembly) (hshape : ∀ n ∈ shape.nodes, n ∈ (st.assembly.system s).nodes)
    (hst' : st'.assembly = st.assembly.insert s place shape)
    (hcap : 1 ≤ (st.assembly.config (st.assembly.system s).config).cap)
    (hindifferent : ∀ e ∈ (st.assembly.system s).constraints, ∀ t ∈ (st.assembly.constraint e).targets,
      t.Indifferent (st.assembly.Lone s shape) st.assembly.node) :
    (correct s).answer st' = (correct s).answer st ∧
      (∀ n, (((correct s).after st').assembly.node n).x = (((correct s).after st).assembly.node n).x ∧
        (((correct s).after st').assembly.node n).y = (((correct s).after st).assembly.node n).y) ∧
      st'.assembly.freedom s = st.assembly.freedom s := by
  obtain ⟨made, hmade⟩ := hst
  have hinserted := hmade.inserted_insert place shape hshape
  have hmade' := hmade.insert (s := s) place shape
  rw [← hst'] at hinserted hmade'
  have hcap' : 1 ≤ (st'.assembly.config (st'.assembly.system s).config).cap := by
    rw [hinserted.config]
    exact hcap
  have hend := (concur_correct_inserted hinserted ⟨made, hmade⟩ ⟨made, hmade'⟩ hindifferent).at_sessions
  refine ⟨hend.answer_eq, fun n => ?_, hinserted.freedom hmade.consistent hmade'.consistent⟩
  -- a run that is rolled back puts every node back
  rcases hend.rolled_back_or with ⟨hfailed, hfailed'⟩ | habreast
  · obtain ⟨hx, hy⟩ := (runs_correct_placed st s hcap).at_session hfailed n
    obtain ⟨hx', hy'⟩ := (runs_correct_placed st' s hcap').at_session hfailed' n
    rw [hx, hy, hx', hy', hinserted.node]
    exact ⟨rfl, rfl⟩
  · exact Inserted.place habreast n

/-- A session with a bar that has to shrink, a bar that has to grow, and a node for itself. -/
def loneNode : Session Float :=
  run [.newSystem none, .node 0 0 0 { base := some true }, .node 0 4 0 {}, .node 0 7 0 {},
    .node 0 8 0 { base := some true }, .node 0 7 5 {}, .pair 0 0 1 { length := some (.number (.int 3)) },
    .pair 0 2 3 { length := some (.number (.int 2)) }] ⟨.empty .standard, .empty Level.warning⟩

theorem correct_inserted_lone :
    (correct 0).answer ⟨loneNode.assembly.insert 0 1 (.pair 2 4 .either), loneNode.journal⟩ = .ok 2 ∧
      (loneNode.assembly.insert 0 1 (.pair 2 4 .either)).freedom 0 = 4 := by
  have hcoherent : ∃ made, Coherent made loneNode.assembly :=
    ⟨_, coherent_run_empty (genuine_of_references (by simp [Operation.references, Spec.references]))⟩
  have hshape : ∀ n ∈ (Shape.pair 2 4 .either).nodes, n ∈ (loneNode.assembly.system 0).nodes := by decide +kernel
  have hcap : 1 ≤ (loneNode.assembly.config (loneNode.assembly.system 0).config).cap := by decide +kernel
  have hclear : ∀ n, loneNode.assembly.Lone 0 (.pair 2 4 .either) n →
      (loneNode.assembly.node n).clearBoost = loneNode.assembly.node n := by
    have hboost : ∀ n ∈ (Shape.pair 2 4 .either).nodes, (loneNode.assembly.node n).boost = 0 := by decide +kernel
    exact fun n hn => Node.clearBoost_of_boost (hboost n hn.1)
  have hanswer : (correct 0).answer loneNode = .ok 2 := eq_ok_of_toOption (by decide +kernel)
  have hfreedom : loneNode.assembly.freedom 0 = 4 := by decide +kernel
  obtain ⟨hsame, -, hfree⟩ := correct_inserted loneNode
    ⟨loneNode.assembly.insert 0 1 (.pair 2 4 .either), loneNode.journal⟩ 0 1 (.pair 2 4 .either) hcoherent hshape rfl hcap
    fun _ _ t _ => Target.indifferent_of_clear hclear t
  exact ⟨hsame.trans hanswer, hfree.trans hfreedom⟩

end Act

end Linkage
