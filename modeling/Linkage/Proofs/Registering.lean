import Linkage.Proofs.Objects
import Linkage.Proofs.Operation

/-!
# Linkage.Proofs.Registering — what making and registering objects does, exactly

For every operation that makes or registers an object: its answer and the assembly that it leaves, as functions of the
assembly before.  Registering a constraint is either refused, and then nothing has changed, or it is `Assembly.join`:
the identifier is indexed, the nodes are listed, and the constraint gets its owner and the last place in the list.
-/

namespace Linkage

/-! ### Lists without repetitions -/

/-- Adds a node to the end of a list, unless it is listed. -/
def listNode (known : List NodeId) (n : NodeId) : List NodeId := if n ∈ known then known else known ++ [n]

/-- Adding nodes one after the other lists each where it came first. -/
theorem foldl_listNode_eraseDups (seen ns : List NodeId) :
    ns.foldl listNode seen.eraseDups = (seen ++ ns).eraseDups := by
  induction ns generalizing seen with
  | nil => rw [List.append_nil, List.foldl_nil]
  | cons n rest ih =>
    have hstep : listNode seen.eraseDups n = (seen ++ [n]).eraseDups := by
      rw [List.eraseDups_append]
      by_cases hn : n ∈ seen
      · simp [listNode, hn, List.removeAll]
      · simp [listNode, hn, List.removeAll, List.eraseDups_cons]
    rw [List.foldl_cons, hstep, ih, List.append_assoc]
    rfl

theorem nodup_foldl_listNode {known : List NodeId} (h : known.Nodup) (ns : List NodeId) :
    (ns.foldl listNode known).Nodup := by
  induction ns generalizing known with
  | nil => exact h
  | cons n rest ih =>
    refine ih ?_
    unfold listNode
    split
    case isTrue => exact h
    case isFalse hn =>
      refine List.nodup_append.mpr ⟨h, by simp, fun m hm m' hm' => ?_⟩
      rw [List.mem_singleton.mp hm']
      rintro rfl
      exact hn hm

theorem prefix_foldl_listNode (known ns : List NodeId) : known <+: ns.foldl listNode known := by
  induction ns generalizing known with
  | nil => exact List.prefix_refl known
  | cons n rest ih =>
    refine List.IsPrefix.trans ?_ (ih _)
    unfold listNode
    split
    · exact List.prefix_refl known
    · exact List.prefix_append known [n]

theorem mem_foldl_listNode {known ns : List NodeId} {n : NodeId} :
    n ∈ ns.foldl listNode known ↔ n ∈ known ∨ n ∈ ns := by
  induction ns generalizing known with
  | nil => simp
  | cons m rest ih =>
    rw [List.foldl_cons, ih]
    unfold listNode
    split
    case isTrue hm =>
      simp only [List.mem_cons]
      constructor
      · rintro (h | h)
        · exact Or.inl h
        · exact Or.inr (Or.inr h)
      · rintro (h | rfl | h)
        · exact Or.inl h
        · exact Or.inl hm
        · exact Or.inr h
    case isFalse => simp [or_assoc]

variable {α : Type}

namespace Assembly

/-! ### What registering does to a system -/

/-- `b` is `a` but for its systems, and perhaps its nodes. -/
structure SameObjects (a b : Assembly α) : Prop where
  constraints : b.constraints = a.constraints
  found : b.found = a.found
  nextKey : b.nextKey = a.nextKey

theorem SameObjects.trans {a b c : Assembly α} (h : SameObjects a b) (h' : SameObjects b c) : SameObjects a c :=
  ⟨h'.constraints.trans h.constraints, h'.found.trans h.found, h'.nextKey.trans h.nextKey⟩

theorem SameObjects.constraint {a b : Assembly α} (h : SameObjects a b) (c : ConstraintId) :
    b.constraint c = a.constraint c := by
  unfold Assembly.constraint; rw [h.constraints]

theorem sameObjects_setSystem (a : Assembly α) (s : SystemId) (v : System) : SameObjects a (a.setSystem s v) :=
  ⟨rfl, rfl, rfl⟩

theorem sameObjects_enlist (a : Assembly α) (s : SystemId) (n : NodeId) : SameObjects a (a.enlist s n) := by
  unfold enlist
  dsimp only
  split
  · exact ⟨rfl, rfl, rfl⟩
  · exact sameObjects_setSystem a s _

theorem system_enlist (a : Assembly α) (s t : SystemId) (n : NodeId) :
    (a.enlist s n).system t =
      if s = t then { a.system s with nodes := listNode (a.system s).nodes n } else a.system t := by
  unfold enlist listNode
  dsimp only
  by_cases hn : n ∈ (a.system s).nodes
  · rw [if_pos hn, if_pos hn]
    split
    case isTrue hst => rw [hst]
    case isFalse => rfl
  · rw [if_neg hn, if_neg hn, system_setSystem]

/-- Lists nodes in a system, one after the other. -/
def enlistAll (a : Assembly α) (s : SystemId) (ns : List NodeId) : Assembly α := ns.foldl (fun a n => a.enlist s n) a

theorem sameObjects_enlistAll (a : Assembly α) (s : SystemId) (ns : List NodeId) : SameObjects a (a.enlistAll s ns) := by
  unfold enlistAll
  induction ns generalizing a with
  | nil => exact ⟨rfl, rfl, rfl⟩
  | cons n rest ih => exact (sameObjects_enlist a s n).trans (ih _)

theorem system_enlistAll (a : Assembly α) (s t : SystemId) (ns : List NodeId) :
    (a.enlistAll s ns).system t =
      if s = t then { a.system s with nodes := ns.foldl listNode (a.system s).nodes } else a.system t := by
  unfold enlistAll
  induction ns generalizing a with
  | nil =>
    split
    case isTrue hst => rw [← hst]; rfl
    case isFalse => rfl
  | cons n rest ih =>
    rw [List.foldl_cons, ih, system_enlist, system_enlist, if_pos rfl]
    split
    · rfl
    · rfl

/-- Registers a constraint that is not refused: its identifier, its nodes and itself. -/
def join (a : Assembly α) (s : SystemId) (c : ConstraintId) : Assembly α :=
  ((a.indexId s c).enlistAll s (a.constraint c).shape.nodes).append s c

section Join

variable (a : Assembly α) (s t : SystemId) (c d : ConstraintId)

theorem sameObjects_indexId : SameObjects a (a.indexId s c) := by
  unfold indexId
  split
  · exact ⟨rfl, rfl, rfl⟩
  · dsimp only
    split
    · exact ⟨rfl, rfl, rfl⟩
    · exact sameObjects_setSystem a s _

/-- The index of a system with the identifier of a constraint entered, unless it has none or it is there. -/
def indexWith (k : Constraint α) (c : ConstraintId) (index : List (String × ConstraintId)) :
    List (String × ConstraintId) :=
  match k.id with
  | none => index
  | some id => if (index.lookup id).isSome then index else index ++ [(id, c)]

theorem system_indexId : (a.indexId s c).system t =
    if s = t then { a.system s with index := indexWith (a.constraint c) c (a.system s).index } else a.system t := by
  unfold indexId indexWith
  cases (a.constraint c).id with
  | none =>
    dsimp only
    split
    case isTrue hst => rw [hst]
    case isFalse => rfl
  | some id =>
    dsimp only
    by_cases hid : ((a.system s).index.lookup id).isSome
    · rw [if_pos hid, if_pos hid]
      split
      case isTrue hst => rw [hst]
      case isFalse => rfl
    · rw [if_neg hid, if_neg hid, system_setSystem]

theorem system_join : (a.join s c).system t =
    if s = t then { a.system s with
      nodes := (a.constraint c).shape.nodes.foldl listNode (a.system s).nodes
      constraints := (a.system s).constraints ++ [c]
      index := indexWith (a.constraint c) c (a.system s).index } else a.system t := by
  unfold join append
  simp only [system_setSystem, system_setConstraint, system_enlistAll, system_indexId, if_true]
  split
  · rfl
  · rfl

theorem constraint_join : (a.join s c).constraint d =
    if c = d then { a.constraint c with owner := some s } else a.constraint d := by
  have hsame := (sameObjects_indexId a s c).trans (sameObjects_enlistAll _ s (a.constraint c).shape.nodes)
  unfold join append
  simp only [constraint_setSystem, constraint_setConstraint, hsame.constraint]

theorem size_join : (a.join s c).constraints.size = max a.constraints.size (c + 1) := by
  have hsame := (sameObjects_indexId a s c).trans (sameObjects_enlistAll _ s (a.constraint c).shape.nodes)
  unfold join append
  exact (Table.size_set ..).trans (by rw [hsame.constraints])

theorem found_join : (a.join s c).found = a.found :=
  ((sameObjects_indexId a s c).trans (sameObjects_enlistAll _ s (a.constraint c).shape.nodes)).found

theorem nextKey_join : (a.join s c).nextKey = a.nextKey :=
  ((sameObjects_indexId a s c).trans (sameObjects_enlistAll _ s (a.constraint c).shape.nodes)).nextKey

end Join

/-- A constraint is registered unless it has another owner or its identifier stands for another constraint. -/
theorem refusal?_eq_none_iff {a : Assembly α} {s : SystemId} {c : ConstraintId} :
    a.refusal? s c = none ↔ ((a.constraint c).owner = none ∨ (a.constraint c).owner = some s) ∧
      ∀ id, (a.constraint c).id = some id → ∀ d, a.byId? s id = some d → d = c := by
  unfold refusal?
  dsimp only
  cases (a.constraint c).owner with
  | none =>
    cases (a.constraint c).id with
    | none => simp
    | some id =>
      cases hid : a.byId? s id with
      | none => simp [hid]
      | some d => simp [hid]
  | some t =>
    by_cases hts : t = s
    · subst hts
      cases (a.constraint c).id with
      | none => simp
      | some id =>
        cases hid : a.byId? t id with
        | none => simp [hid]
        | some d => simp [hid]
    · simp [hts]

/-- Afterwards the identifier of the constraint stands for it, and every other one for what it stood for. -/
theorem byId?_join {a : Assembly α} {s : SystemId} {c : ConstraintId} (hfree : a.refusal? s c = none) (t : SystemId)
    (id : String) : (a.join s c).byId? t id = if s = t ∧ (a.constraint c).id = some id then some c else a.byId? t id := by
  obtain ⟨-, hid⟩ := refusal?_eq_none_iff.mp hfree
  unfold byId?
  rw [system_join]
  by_cases hst : s = t
  · subst hst
    simp only [if_true, true_and]
    unfold indexWith
    cases hk : (a.constraint c).id with
    | none => simp
    | some own =>
      simp only [Option.some.injEq]
      -- a new identifier is put at the end of the index, and one that is there stands for the constraint itself
      cases hown : (a.system s).index.lookup own with
      | none =>
        simp only [Option.isSome_none, Bool.false_eq_true, if_false]
        by_cases hoi : own = id
        · subst hoi
          simp [List.lookup_append, hown]
        · have hne : (id == own) = false := beq_false_of_ne (Ne.symm hoi)
          simp [List.lookup_append, hoi, List.lookup_cons, hne]
      | some d =>
        obtain rfl := hid own hk d hown
        simp only [Option.isSome_some, if_true]
        split
        case isTrue hoi => rw [← hoi, hown]
        case isFalse => rfl
  · simp [hst]

end Assembly

/-! ### New constraints -/

/-- The marker gives way to the value that there is. -/
theorem Spec.fixed_of_settle [Scalar α] {spec : Spec α} {now : Except (Fault α) α} {t? : Option (Target α)}
    (hcurrent : spec.coerce = .ok .current) (h : spec.settle now = .ok t?) :
    ∃ x, now = .ok x ∧ t? = some (.fixed x) := by
  unfold settle at h
  rw [hcurrent] at h
  cases now with
  | error fault => cases h
  | ok x =>
    cases h
    exact ⟨x, rfl, rfl⟩

namespace Constraint

variable [Scalar α] {node : NodeId → Node α} {k : Constraint α}

/-- What a new constraint has in common, whatever its kind: it has no owner and joins the nodes given, and its targets
are the ones that the specs stand for. -/
structure Fresh (k : Constraint α) (ns : List NodeId) (length angle : Spec α) : Prop where
  owner : k.owner = none
  nodes : k.shape.nodes = ns
  lengthTarget : ∃ now, length.settle now = .ok k.lengthTarget
  angleTarget : ∃ now, angle.settle now = .ok k.angleTarget

/-- What a pair that is made consists of. -/
theorem exists_of_pair {first second : NodeId} {o : PairOptions α} (h : Constraint.pair node first second o = .ok k) :
    first ≠ second ∧ ∃ direction length? angle?,
      Direction.ofValue? (o.direction.getD (.int 0)) = some direction ∧
      (o.length.getD .absent).settle ((Shape.pair first second direction).length node) = .ok length? ∧
      (o.angle.getD .absent).settle (.ok ((Shape.pair first second direction).angle node)) = .ok angle? ∧
      k = ⟨o.id.join, .pair first second direction, none, [], length?, angle?⟩ := by
  unfold Constraint.pair at h
  simp only [bind, Except.bind, pure, Except.pure, throw, throwThe, MonadExceptOf.throw] at h
  split at h
  · exact nomatch h
  · next hne =>
    split at h
    · exact nomatch h
    · next hdirection =>
      split at h
      · exact nomatch h
      · next hlength =>
        split at h
        · exact nomatch h
        · next hangle =>
          cases h
          exact ⟨hne, _, _, _, hdirection, hlength, hangle, rfl⟩

/-- What a triple that is made consists of. -/
theorem exists_of_triple {apex ray arm : NodeId} {o : TripleOptions α}
    (h : Constraint.triple node apex ray arm o = .ok k) :
    ¬(apex = ray ∨ apex = arm ∨ ray = arm) ∧ ∃ angle?,
      (o.angle.getD .absent).settle (.ok ((Shape.triple apex ray arm).angle node)) = .ok angle? ∧
      k = ⟨o.id.join, .triple apex ray arm, none, [], none, angle?⟩ := by
  unfold Constraint.triple at h
  simp only [bind, Except.bind, pure, Except.pure, throw, throwThe, MonadExceptOf.throw] at h
  split at h
  · exact nomatch h
  · next hne =>
    split at h
    · exact nomatch h
    · next hangle =>
      cases h
      exact ⟨hne, _, hangle, rfl⟩

theorem fresh_pair {first second : NodeId} {o : PairOptions α} (h : Constraint.pair node first second o = .ok k) :
    Fresh k [first, second] (o.length.getD .absent) (o.angle.getD .absent) := by
  obtain ⟨-, direction, length?, angle?, -, hlength, hangle, rfl⟩ := exists_of_pair h
  exact ⟨rfl, rfl, ⟨_, hlength⟩, ⟨_, hangle⟩⟩

theorem fresh_triple {apex ray arm : NodeId} {o : TripleOptions α}
    (h : Constraint.triple node apex ray arm o = .ok k) :
    Fresh k [apex, ray, arm] .absent (o.angle.getD .absent) := by
  obtain ⟨-, angle?, hangle, rfl⟩ := exists_of_triple h
  exact ⟨rfl, rfl, ⟨.error .noLength, rfl⟩, ⟨_, hangle⟩⟩

/-- What a pair was made with can be written. -/
theorem refusal?_of_pair {first second : NodeId} {o : PairOptions α} (h : Constraint.pair node first second o = .ok k)
    (room : Nat) : ∀ n ∈ o.named, n.2.refusal? Value.shownItems room = none := by
  obtain ⟨-, direction, length?, angle?, hdirection, hlength, hangle, rfl⟩ := exists_of_pair h
  unfold PairOptions.named
  simp only [List.forall_mem_append, Option.mem_toList, Option.map_eq_some_iff, forall_exists_index, and_imp,
    forall_apply_eq_imp_iff₂]
  refine ⟨⟨⟨fun id _ => Value.refusal?_optionalText _ _ id, fun spec hspec => ?_⟩, fun spec hspec => ?_⟩,
    fun given hgiven => ?_⟩
  · rw [hspec] at hlength
    exact spec.refusal?_value_of_settle hlength _ _
  · rw [hspec] at hangle
    exact spec.refusal?_value_of_settle hangle _ _
  · rw [hgiven] at hdirection
    exact Direction.refusal?_of_ofValue? hdirection _ _

/-- What a triple was made with can be written. -/
theorem refusal?_of_triple {apex ray arm : NodeId} {o : TripleOptions α}
    (h : Constraint.triple node apex ray arm o = .ok k) (room : Nat) :
    ∀ n ∈ o.named, n.2.refusal? Value.shownItems room = none := by
  obtain ⟨-, angle?, hangle, rfl⟩ := exists_of_triple h
  unfold TripleOptions.named
  simp only [List.forall_mem_append, Option.mem_toList, Option.map_eq_some_iff, forall_exists_index, and_imp,
    forall_apply_eq_imp_iff₂]
  refine ⟨fun id _ => Value.refusal?_optionalText _ _ id, fun spec hspec => ?_⟩
  rw [hspec] at hangle
  exact spec.refusal?_value_of_settle hangle _ _

end Constraint

/-! ### The operations -/

namespace Act

variable {a : Assembly α}

theorem runs_enter {k : Constraint α} {Q : Except (Fault α) ConstraintId → Assembly α → Prop}
    (h : Q (.ok a.constraints.size) { a with constraints := a.constraints.push k }) : Runs (enter k) a Q :=
  runs_read (runs_after_change (runs_pure h))

/-- Entering a constraint, unless it cannot be made. -/
theorem runs_enter_made {made : Except (Fault α) (Constraint α)} {Q : Except (Fault α) ConstraintId → Assembly α → Prop}
    (hrefused : ∀ fault, made = .error fault → Q (.error fault) a)
    (hmade : ∀ k, made = .ok k → Q (.ok a.constraints.size) { a with constraints := a.constraints.push k }) :
    Runs (ofExcept made >>= enter) a Q := by
  refine runs_bind (runs_ofExcept ?_)
  cases made with
  | error fault =>
    rw [then_error]
    exact hrefused fault rfl
  | ok k =>
    rw [then_ok]
    exact runs_enter (hmade k rfl)

variable [Scalar α]

theorem runs_newNode {x y : α} {o : NodeOptions α} {Q : Except (Fault α) NodeId → Assembly α → Prop}
    (h : Q (.ok a.nodes.size) { a with nodes := a.nodes.push (o.node x y) }) : Runs (newNode x y o) a Q :=
  runs_read (runs_after_change (runs_pure h))

theorem runs_addNode {s : SystemId} {n : NodeId} {Q : Except (Fault α) NodeId → Assembly α → Prop}
    (h : Q (.ok n) (a.enlist s n)) : Runs (addNode s n) a Q :=
  runs_traced (runs_after_change (runs_pure h))

theorem runs_node {s : SystemId} {x y : α} {o : NodeOptions α} {Q : Except (Fault α) NodeId → Assembly α → Prop}
    (h : Q (.ok a.nodes.size)
      (({ a with nodes := a.nodes.push (o.node x y) } : Assembly α).enlist s a.nodes.size)) :
    Runs (node s x y o) a Q :=
  runs_traced (runs_bind (runs_newNode (runs_addNode h))) (writable_node x y o)

theorem runs_enlistAll {s : SystemId} {ns : List NodeId} {Q : Except (Fault α) PUnit → Assembly α → Prop}
    (h : Q (.ok ⟨⟩) (a.enlistAll s ns)) : Runs (ns.forM fun n => discard (addNode s n)) a Q := by
  induction ns generalizing a with
  | nil => exact runs_pure h
  | cons n rest ih => exact runs_bind (runs_discard (runs_addNode (ih h)))

/-- A constraint is refused, and nothing has changed, or it is registered. -/
theorem runs_add {s : SystemId} {c : ConstraintId} {Q : Except (Fault α) ConstraintId → Assembly α → Prop}
    (hrefused : ∀ fault, a.refusal? s c = some fault → Q (.error fault) a)
    (hjoined : a.refusal? s c = none → Q (.ok c) (a.join s c)) : Runs (add s c) a Q := by
  refine runs_traced (runs_read ?_)
  cases hrefusal : a.refusal? s c with
  | some fault => exact runs_throw (hrefused fault hrefusal)
  | none =>
    refine runs_after_change (runs_bind (runs_enlistAll ?_))
    rw [then_ok]
    exact runs_after_change (runs_read (runs_after_report (runs_pure (hjoined hrefusal))))

/-- `p` makes a constraint on `ns` and enters it as it is, or fails and has changed nothing. -/
def Makes (p : Act α ConstraintId) (a : Assembly α) (ns : List NodeId) (length angle : Spec α) : Prop :=
  Runs p a fun r b => (∃ fault, r = .error fault ∧ b = a) ∨
    ∃ k : Constraint α, k.Fresh ns length angle ∧ r = .ok a.constraints.size ∧
      b = { a with constraints := a.constraints.push k }

theorem runs_newPair {first second : NodeId} {o : PairOptions α}
    {Q : Except (Fault α) ConstraintId → Assembly α → Prop}
    (hrefused : ∀ fault, Constraint.pair a.node first second o = .error fault → Q (.error fault) a)
    (hmade : ∀ k, Constraint.pair a.node first second o = .ok k →
      Q (.ok a.constraints.size) { a with constraints := a.constraints.push k }) : Runs (newPair first second o) a Q :=
  runs_read (runs_enter_made hrefused hmade)

theorem runs_newTriple {apex ray arm : NodeId} {o : TripleOptions α}
    {Q : Except (Fault α) ConstraintId → Assembly α → Prop}
    (hrefused : ∀ fault, Constraint.triple a.node apex ray arm o = .error fault → Q (.error fault) a)
    (hmade : ∀ k, Constraint.triple a.node apex ray arm o = .ok k →
      Q (.ok a.constraints.size) { a with constraints := a.constraints.push k }) : Runs (newTriple apex ray arm o) a Q := by
  refine runs_bind (runs_notice ?_)
  rw [then_ok]
  exact runs_read (runs_enter_made hrefused hmade)

theorem makes_newPair (a : Assembly α) (first second : NodeId) (o : PairOptions α) :
    Makes (newPair first second o) a [first, second] (o.length.getD .absent) (o.angle.getD .absent) :=
  runs_newPair (fun fault _ => Or.inl ⟨fault, rfl, rfl⟩)
    fun k hk => Or.inr ⟨k, Constraint.fresh_pair hk, rfl, rfl⟩

theorem makes_newTriple (a : Assembly α) (apex ray arm : NodeId) (o : TripleOptions α) :
    Makes (newTriple apex ray arm o) a [apex, ray, arm] .absent (o.angle.getD .absent) :=
  runs_newTriple (fun fault _ => Or.inl ⟨fault, rfl, rfl⟩)
    fun k hk => Or.inr ⟨k, Constraint.fresh_triple hk, rfl, rfl⟩

/-- A pair with options that cannot be written is refused where it is not traced either. -/
theorem runs_pair {s : SystemId} {first second : NodeId} {o : PairOptions α}
    {Q : Except (Fault α) ConstraintId → Assembly α → Prop}
    (hrefused : ∀ fault refusal, Constraint.pair a.node first second o = .error refusal → Q (.error fault) a)
    (h : Runs (newPair first second o >>= add s) a Q) : Runs (pair s first second o) a Q := by
  refine runs_traced_given (fun room fault hfault => ?_) h
  cases hmade : Constraint.pair a.node first second o with
  | error refusal => exact hrefused fault refusal hmade
  | ok k =>
    rw [Call.refusal?_eq_none_iff.mpr ⟨fun v hv => ?_, Constraint.refusal?_of_pair hmade room⟩] at hfault
    · cases hfault
    · simp only [List.mem_cons, List.not_mem_nil, or_false] at hv
      rcases hv with rfl | rfl | rfl <;> rfl

/-- A triple with options that cannot be written is refused where it is not traced either. -/
theorem runs_triple {s : SystemId} {apex ray arm : NodeId} {o : TripleOptions α}
    {Q : Except (Fault α) ConstraintId → Assembly α → Prop}
    (hrefused : ∀ fault refusal, Constraint.triple a.node apex ray arm o = .error refusal → Q (.error fault) a)
    (h : Runs (newTriple apex ray arm o >>= add s) a Q) : Runs (triple s apex ray arm o) a Q := by
  refine runs_traced_given (fun room fault hfault => ?_) h
  cases hmade : Constraint.triple a.node apex ray arm o with
  | error refusal => exact hrefused fault refusal hmade
  | ok k =>
    rw [Call.refusal?_eq_none_iff.mpr ⟨fun v hv => ?_, Constraint.refusal?_of_triple hmade room⟩] at hfault
    · cases hfault
    · simp only [List.mem_cons, List.not_mem_nil, or_false] at hv
      rcases hv with rfl | rfl | rfl | rfl <;> rfl

/-- What is made is refused, and nothing has happened but that it was made, or it is registered. -/
theorem Makes.add {p : Act α ConstraintId} {s : SystemId} {ns : List NodeId} {length angle : Spec α}
    (h : Makes p a ns length angle) :
    Runs (p >>= add s) a fun r b => (∃ fault, r = .error fault ∧ b = a) ∨
      ∃ k : Constraint α, k.Fresh ns length angle ∧
        ((∃ fault, r = .error fault ∧ b = { a with constraints := a.constraints.push k }) ∨
          r = .ok a.constraints.size ∧
            ({ a with constraints := a.constraints.push k } : Assembly α).refusal? s a.constraints.size = none ∧
            b = ({ a with constraints := a.constraints.push k } : Assembly α).join s a.constraints.size) := by
  refine runs_bind (Runs.mono h fun r b hrb => ?_)
  rcases hrb with ⟨fault, rfl, rfl⟩ | ⟨k, hk, rfl, rfl⟩
  · exact Or.inl ⟨fault, rfl, rfl⟩
  · rw [then_ok]
    exact runs_add (fun fault _ => Or.inr ⟨k, hk, Or.inl ⟨fault, rfl, rfl⟩⟩)
      fun hfree => Or.inr ⟨k, hk, Or.inr ⟨rfl, hfree, rfl⟩⟩

end Act

end Linkage
