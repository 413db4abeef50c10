import Linkage.Proofs.Alteration
import Linkage.Proofs.Bars

/-!
# Linkage.Proofs.Storing — what is stored as a target

A wanted length or angle is assigned when its constraint is made and by the two setters, and each of them settles what it
is given before it stores it: a number is fixed, a callable is wrapped, and the marker *current* gives way to the value
that the quantity has at that moment (`Spec.Stores`).  Whatever else happens, a constraint has stored what the last
assignment that was not refused left there (`leaves_run`).  So what was assigned as current reads as the length or angle
of that moment, wherever the nodes have gone since (`targets_frozen`).
-/

namespace Linkage

variable {α : Type}

/-! ### Quantities and what is stored for them -/

namespace Constraint

/-- What a constraint wants of a quantity. -/
def target (k : Constraint α) : Quantity → Option (Target α)
  | .length => k.lengthTarget
  | .angle => k.angleTarget

/-- The constraint with something else stored for a quantity. -/
def retarget (k : Constraint α) (t? : Option (Target α)) : Quantity → Constraint α
  | .length => { k with lengthTarget := t? }
  | .angle => { k with angleTarget := t? }

theorem target_retarget (k : Constraint α) (t? : Option (Target α)) (p q : Quantity) :
    (k.retarget t? p).target q = if p = q then t? else k.target q := by
  cases p with
  | length =>
    cases q with
    | length => rfl
    | angle => rfl
  | angle =>
    cases q with
    | length => rfl
    | angle => rfl

theorem shape_retarget (k : Constraint α) (t? : Option (Target α)) (q : Quantity) :
    (k.retarget t? q).shape = k.shape := by
  cases q with
  | length => rfl
  | angle => rfl

/-- Neither an owner nor a record of node states is a target. -/
theorem target_kept (k : Constraint α) (owner : Option SystemId) (saved : List (Saved α)) (q : Quantity) :
    ({ k with owner := owner, saved := saved } : Constraint α).target q = k.target q := by
  cases q with
  | length => rfl
  | angle => rfl

end Constraint

variable [Scalar α]

/-- A quantity of a shape, with all nodes as they are. -/
def Shape.measure (s : Shape) (q : Quantity) (node : NodeId → Node α) : Except (Fault α) α :=
  match q with
  | .length => s.length node
  | .angle => .ok (s.angle node)

/-! ### What a spec leaves -/

/-- The spec asks for the value that there is: it is the marker, or a word for it. -/
inductive Spec.AsksCurrent : Spec α → Prop where
  | marker : AsksCurrent .current
  | word (word : String) (h : isCurrentMarker word) : AsksCurrent (.marker word)

/-- What a spec leaves stored for a quantity that has the value `now`. -/
inductive Spec.Stores (now : Except (Fault α) α) : Spec α → Option (Target α) → Prop where
  | absent : Stores now .absent none
  | current {spec : Spec α} (asks : spec.AsksCurrent) (x : α) (value : now = .ok x) :
      Stores now spec (some (.fixed x))
  | number (n : Numeral α) (noFlag : ∀ b, n ≠ .flag b) (x : α) (value : n.toScalar = .ok x) :
      Stores now (.number n) (some (.fixed x))
  | target (t : Target α) : Stores now (.target t) (some t)
  | callable (name : Option String) (read : Sight α → Except (Fault α) α) :
      Stores now (.callable name read) (some (.computed (.ofCallable none name read)))

/-- A number is fixed as what it converts to. -/
theorem Spec.stores_number {n : Numeral α} {now : Except (Fault α) α} {t? : Option (Target α)}
    (noFlag : ∀ b, n ≠ .flag b) (h : (Spec.number n).settle now = .ok t?) : (Spec.number n).Stores now t? := by
  have hcoerce : (Spec.number n).coerce = (fun x => .target (.fixed x)) <$> n.toScalar := by
    cases n with
    | flag b => exact absurd rfl (noFlag b)
    | int n => rfl
    | float x => rfl
  unfold settle at h
  rw [hcoerce] at h
  cases hx : n.toScalar with
  | error fault =>
    rw [hx] at h
    cases h
  | ok x =>
    rw [hx] at h
    cases h
    exact .number n noFlag x hx

theorem Spec.stores_current {spec : Spec α} {now : Except (Fault α) α} {t? : Option (Target α)}
    (asks : spec.AsksCurrent) (h : spec.settle now = .ok t?) : spec.Stores now t? := by
  have hcurrent : spec.coerce = .ok .current := by
    cases asks with
    | marker => rfl
    | word word hword => exact if_pos hword
  obtain ⟨x, hx, rfl⟩ := fixed_of_settle hcurrent h
  exact .current asks x hx

theorem Spec.stores_of_settle {spec : Spec α} {now : Except (Fault α) α} {t? : Option (Target α)}
    (h : spec.settle now = .ok t?) : spec.Stores now t? := by
  cases spec with
  | absent =>
    cases h
    exact .absent
  | target t =>
    cases h
    exact .target t
  | current => exact stores_current .marker h
  | number n =>
    refine stores_number ?_ h
    rintro b rfl
    cases h
  | marker word =>
    by_cases hword : isCurrentMarker word
    · exact stores_current (.word word hword) h
    · unfold settle coerce at h
      dsimp only at h
      rw [if_neg hword] at h
      cases h
  | callable name read =>
    cases h
    exact .callable name read
  | unsupported shown type => cases h

/-- What asks for the current value leaves it fixed. -/
theorem Spec.Stores.fixed {spec : Spec α} {now : Except (Fault α) α} {t? : Option (Target α)} (h : spec.Stores now t?)
    (asks : spec.AsksCurrent) : ∃ x, now = .ok x ∧ t? = some (.fixed x) := by
  cases h with
  | current _ x value => exact ⟨x, value, rfl⟩
  | absent => cases asks
  | number => cases asks
  | target => cases asks
  | callable => cases asks

/-! ### Assignments -/

/-- A spec that is assigned to a quantity, and the value that the quantity has at that moment. -/
structure Assignment (α : Type) where
  spec : Spec α
  now : Except (Fault α) α

/-- What an assignment leaves stored in place of what there was, if there is an assignment. -/
inductive Leaves (old : Option (Target α)) : Option (Assignment α) → Option (Target α) → Prop where
  | kept : Leaves old none old
  | assigned (r : Assignment α) (t? : Option (Target α)) (stores : r.spec.Stores r.now t?) : Leaves old (some r) t?

theorem Leaves.trans {old t? t?' : Option (Target α)} {r? r?' : Option (Assignment α)} (h : Leaves old r? t?)
    (h' : Leaves t? r?' t?') : Leaves old (r?'.or r?) t?' := by
  cases h' with
  | kept => exact h
  | assigned r _ stores => exact .assigned r t?' stores

/-- What is given for a quantity of a new pair. -/
def PairOptions.given (o : PairOptions α) : Quantity → Spec α
  | .length => o.length.getD .absent
  | .angle => o.angle.getD .absent

/-- What is given for a quantity of a new triple; nothing is for a length. -/
def TripleOptions.given (o : TripleOptions α) : Quantity → Spec α
  | .length => .absent
  | .angle => o.angle.getD .absent

namespace Operation

/-- The spec that an operation has for a quantity, and the constraint it is for; what is made gets the number `next`. -/
def offer (q : Quantity) (next : ConstraintId) : Operation α → Option (ConstraintId × Spec α)
  | .newPair _ _ o | .pair _ _ _ o => some (next, o.given q)
  | .newTriple _ _ _ o | .triple _ _ _ _ o => some (next, o.given q)
  | .setLengthTarget c spec => if .length = q then some (c, spec) else none
  | .setAngleTarget c spec => if .angle = q then some (c, spec) else none
  | _ => none

/-- What an operation that leads from `a` to `b` assigns to a quantity of a constraint, if it does: what is refused is not
assigned, unless the constraint was made before and is refused by a system only. -/
def assigns (q : Quantity) (c : ConstraintId) (a b : Assembly α) (answered : Bool) (op : Operation α) :
    Option (Assignment α) :=
  (op.offer q a.constraints.size).bind fun offered =>
    if offered.1 = c ∧ (answered ∨ a.constraints.size < b.constraints.size)
    then some ⟨offered.2, (b.constraint c).shape.measure q a.node⟩ else none

/-- Every constraint has stored what the operation assigns to it, or what it had. -/
def Stores (op : Operation α) (a : Assembly α) (answered : Bool) (b : Assembly α) : Prop :=
  ∀ q c, Leaves ((a.constraint c).target q) (op.assigns q c a b answered) ((b.constraint c).target q)

variable {op : Operation α} {a b : Assembly α} {answered : Bool}

theorem leaves_of_unassigned {q : Quantity} {c : ConstraintId} (h : op.assigns q c a b answered = none)
    (hsame : (b.constraint c).target q = (a.constraint c).target q) :
    Leaves ((a.constraint c).target q) (op.assigns q c a b answered) ((b.constraint c).target q) := by
  rw [h, hsame]
  exact .kept

/-- What is refused before anything is made changes nothing. -/
theorem stores_refused (op : Operation α) (a : Assembly α) : op.Stores a false a := by
  intro q c
  refine leaves_of_unassigned ?_ rfl
  unfold assigns
  cases op.offer q a.constraints.size with
  | none => rfl
  | some offered => exact if_neg (by simp)

/-! ### New constraints -/

/-- What is made is offered what its options give, and has it stored. -/
theorem exists_offer_of_draft {node : NodeId → Node α} {k : Constraint α} (h : op.draft node = some k) (q : Quantity)
    (next : ConstraintId) : ∃ spec, op.offer q next = some (next, spec) ∧
      spec.Stores (k.shape.measure q node) (k.target q) := by
  have hpair {first second : NodeId} {o : PairOptions α} (h : Constraint.pair node first second o = .ok k) :
      (o.given q).Stores (k.shape.measure q node) (k.target q) := by
    obtain ⟨-, direction, length?, angle?, -, hlength, hangle, rfl⟩ := Constraint.exists_of_pair h
    cases q with
    | length => exact Spec.stores_of_settle hlength
    | angle => exact Spec.stores_of_settle hangle
  have htriple {apex ray arm : NodeId} {o : TripleOptions α} (h : Constraint.triple node apex ray arm o = .ok k) :
      (o.given q).Stores (k.shape.measure q node) (k.target q) := by
    obtain ⟨-, angle?, hangle, rfl⟩ := Constraint.exists_of_triple h
    cases q with
    | length => exact .absent
    | angle => exact Spec.stores_of_settle hangle
  unfold draft at h
  split at h
  · exact ⟨_, rfl, hpair (Act.eq_ok_of_toOption h)⟩
  · exact ⟨_, rfl, hpair (Act.eq_ok_of_toOption h)⟩
  · exact ⟨_, rfl, htriple (Act.eq_ok_of_toOption h)⟩
  · exact ⟨_, rfl, htriple (Act.eq_ok_of_toOption h)⟩
  · cases h

/-- A constraint that is made, and perhaps registered, has its targets stored, whether the operation answers or not. -/
theorem stores_made {k : Constraint α} (owner : Option SystemId) (hdraft : op.draft a.node = some k)
    (hsize : a.constraints.size < b.constraints.size)
    (hnew : b.constraint a.constraints.size = { k with owner := owner })
    (hold : ∀ c, c ≠ a.constraints.size → b.constraint c = a.constraint c) : op.Stores a answered b := by
  intro q c
  obtain ⟨spec, hoffer, hstores⟩ := exists_offer_of_draft hdraft q a.constraints.size
  by_cases hc : a.constraints.size = c
  · subst hc
    have hassigns : op.assigns q a.constraints.size a b answered = some ⟨spec, k.shape.measure q a.node⟩ := by
      unfold assigns
      rw [hoffer, hnew]
      exact if_pos ⟨rfl, Or.inr hsize⟩
    rw [hassigns, hnew, Constraint.target_kept]
    exact .assigned _ _ hstores
  · refine leaves_of_unassigned ?_ (by rw [hold c (Ne.symm hc)])
    unfold assigns
    rw [hoffer]
    exact if_neg fun h => hc h.1

theorem stores_push {k : Constraint α} (hdraft : op.draft a.node = some k) :
    op.Stores a answered { a with constraints := a.constraints.push k } := by
  refine stores_made k.owner hdraft ?_ ?_ fun c hc => ?_
  · rw [Table.size_push]
    exact Nat.lt_succ_self _
  · rw [Assembly.constraint_push, if_pos rfl]
  · rw [Assembly.constraint_push, if_neg hc]

theorem stores_push_join {k : Constraint α} (hdraft : op.draft a.node = some k) (s : SystemId) :
    op.Stores a answered (({ a with constraints := a.constraints.push k } : Assembly α).join s a.constraints.size) := by
  refine stores_made (some s) hdraft ?_ ?_ fun c hc => ?_
  · rw [Assembly.size_join]
    exact Nat.lt_of_lt_of_le (Nat.lt_succ_self _) (Nat.le_max_right ..)
  · rw [Assembly.constraint_join, if_pos rfl, Assembly.constraint_push, if_pos rfl]
  · rw [Assembly.constraint_join, if_neg (Ne.symm hc), Assembly.constraint_push, if_neg hc]

/-- What an operation has made, it registers if it may. -/
theorem runs_add_stores (op : Operation α) {k : Constraint α} (hdraft : op.draft a.node = some k) (s : SystemId) :
    Act.Runs (Act.add s a.constraints.size) { a with constraints := a.constraints.push k } fun r b =>
      op.Stores a r.isOk b :=
  Act.runs_add (fun _ _ => stores_push hdraft) fun _ => stores_push_join hdraft s

/-! ### Assigned targets -/

/-- A setter stores what it settles, for its quantity and its constraint only. -/
theorem stores_setConstraint {d : ConstraintId} {p : Quantity} {spec : Spec α} {t? : Option (Target α)}
    (hoffer : ∀ q next, op.offer q next = if p = q then some (d, spec) else none)
    (hsettle : spec.settle ((a.constraint d).shape.measure p a.node) = .ok t?) :
    op.Stores a true (a.setConstraint d ((a.constraint d).retarget t? p)) := by
  intro q c
  have htarget : ((a.setConstraint d ((a.constraint d).retarget t? p)).constraint c).target q =
      if d = c ∧ p = q then t? else (a.constraint c).target q := by
    rw [Assembly.constraint_setConstraint]
    by_cases hd : d = c
    · simp [hd, Constraint.target_retarget]
    · simp [hd]
  by_cases hthis : d = c ∧ p = q
  · obtain ⟨rfl, rfl⟩ := hthis
    have hassigns : op.assigns p d a (a.setConstraint d ((a.constraint d).retarget t? p)) true =
        some ⟨spec, (a.constraint d).shape.measure p a.node⟩ := by
      unfold assigns
      rw [hoffer, if_pos rfl, Assembly.constraint_setConstraint, if_pos rfl, Constraint.shape_retarget]
      exact if_pos ⟨rfl, Or.inl rfl⟩
    rw [hassigns, htarget, if_pos ⟨rfl, rfl⟩]
    exact .assigned _ _ (Spec.stores_of_settle hsettle)
  · refine leaves_of_unassigned ?_ (htarget.trans (if_neg hthis))
    unfold assigns
    rw [hoffer]
    by_cases hq : p = q
    · rw [if_pos hq]
      exact if_neg fun h => hthis ⟨h.1, hq⟩
    · rw [if_neg hq]
      rfl

theorem runs_setLengthTarget_stores (d : ConstraintId) (spec : Spec α) (a : Assembly α) :
    Act.Runs (Act.setLengthTarget d spec) a fun r b => (Operation.setLengthTarget d spec).Stores a r.isOk b := by
  refine Act.runs_read ?_
  dsimp only
  split
  case h_1 => exact Act.runs_throw (stores_refused _ a)
  case h_2 hshape =>
    refine Act.runs_bind (Act.runs_ofExcept ?_)
    cases hsettle : spec.settle (a.length d) with
    | error fault => exact stores_refused _ a
    | ok t? =>
      rw [Act.then_ok]
      exact Act.runs_change (stores_setConstraint (p := .length) (fun _ _ => rfl) hsettle)

theorem runs_setAngleTarget_stores (d : ConstraintId) (spec : Spec α) (a : Assembly α) :
    Act.Runs (Act.setAngleTarget d spec) a fun r b => (Operation.setAngleTarget d spec).Stores a r.isOk b := by
  refine Act.runs_read (Act.runs_bind (Act.runs_ofExcept ?_))
  cases hsettle : spec.settle (.ok (a.angle d)) with
  | error fault => exact stores_refused _ a
  | ok t? =>
    rw [Act.then_ok]
    exact Act.runs_change (stores_setConstraint (p := .angle) (fun _ _ => rfl) hsettle)

/-! ### The operations -/

/-- An operation that has no spec for a quantity stores nothing. -/
theorem stores_of_alters (hoffer : ∀ q next, op.offer q next = none) (h : ∀ c, op.Alters c a b) :
    op.Stores a answered b := by
  intro q c
  refine leaves_of_unassigned (by unfold assigns; rw [hoffer]; rfl) ?_
  cases h c with
  | kept owner same => rw [same, Constraint.target_kept]
  | refused s limit isThis same => rw [same]
  | made k owner unmade drafted =>
    obtain ⟨spec, hsome, -⟩ := exists_offer_of_draft drafted q 0
    cases (hoffer q 0).symm.trans hsome
  | lengthAssigned spec t? isThis =>
    subst isThis
    cases hoffer .length 0
  | angleAssigned spec t? isThis =>
    subst isThis
    cases hoffer .angle 0

/-- What an operation does to the targets of all constraints. -/
theorem runs_stores (op : Operation α) (a : Assembly α) : Act.Runs op.act.2 a fun r b => op.Stores a r.isOk b := by
  -- operations that offer nothing store nothing, since they alter no target
  by_cases hnone : ∀ q next, op.offer q next = none
  · exact (op.runs_alters a).mono fun _ _ h => stores_of_alters hnone h
  cases op with
  | newPair first second o =>
    exact Act.runs_newPair (fun _ _ => stores_refused _ a) fun k hk => stores_push (congrArg Except.toOption hk)
  | newTriple apex ray arm o =>
    exact Act.runs_newTriple (fun _ _ => stores_refused _ a) fun k hk => stores_push (congrArg Except.toOption hk)
  | pair s first second o =>
    refine Act.runs_pair (fun _ _ _ => stores_refused _ a)
      (Act.runs_bind (Act.runs_newPair (fun _ _ => stores_refused _ a) fun k hk => ?_))
    exact runs_add_stores (.pair s first second o) (congrArg Except.toOption hk) s
  | triple s apex ray arm o =>
    refine Act.runs_triple (fun _ _ _ => stores_refused _ a)
      (Act.runs_bind (Act.runs_newTriple (fun _ _ => stores_refused _ a) fun k hk => ?_))
    exact runs_add_stores (.triple s apex ray arm o) (congrArg Except.toOption hk) s
  | setLengthTarget d spec => exact runs_setLengthTarget_stores d spec a
  | setAngleTarget d spec => exact runs_setAngleTarget_stores d spec a
  | _ => exact absurd (fun _ _ => rfl) hnone

/-- What an operation assigns to a quantity of a constraint in a session, if it does. -/
def assignsIn (q : Quantity) (c : ConstraintId) (st : Session α) (op : Operation α) : Option (Assignment α) :=
  op.assigns q c st.assembly (op.after st).assembly (op.act.2.answer st).isOk

end Operation

/-! ### Runs -/

/-- The last assignment to a quantity of a constraint in the course of operations. -/
def lastAssignment (q : Quantity) (c : ConstraintId) (ops : List (Operation α)) (st : Session α) :
    Option (Assignment α) :=
  (gathered (fun st op => (op.assignsIn q c st).toList) ops st).getLast?

theorem lastAssignment_concat (q : Quantity) (c : ConstraintId) (ops : List (Operation α)) (op : Operation α)
    (st : Session α) :
    lastAssignment q c (ops ++ [op]) st = (op.assignsIn q c (run ops st)).or (lastAssignment q c ops st) := by
  unfold lastAssignment
  rw [gathered_concat]
  cases op.assignsIn q c (run ops st) with
  | none => simp
  | some r => simp

/-- After any operations a constraint has stored what the last assignment left, or what it had before them. -/
theorem leaves_run (q : Quantity) (c : ConstraintId) (ops : List (Operation α)) (st : Session α) :
    Leaves ((st.assembly.constraint c).target q) (lastAssignment q c ops st)
      (((run ops st).assembly.constraint c).target q) := by
  induction ops using List.reverseRecOn with
  | nil => exact .kept
  | append_singleton rest op ih =>
    rw [run_concat, lastAssignment_concat]
    exact ih.trans ((op.runs_stores (run rest st).assembly).at_session q c)

namespace Act

/-! ### Reading what is stored -/

/-- What a constraint wants of a quantity, as it reads at the moment. -/
def readTarget (q : Quantity) (c : ConstraintId) : Act α (Option α) :=
  match q with
  | .length => targetLength c
  | .angle => targetAngle c

/-- What is stored for a constraint, as it reads at the moment. -/
def readStored (c : ConstraintId) : Option (Target α) → Act α (Option α)
  | some t => return some (← evaluate c t)
  | none => return none

variable {q : Quantity} {c : ConstraintId} {st : Session α}

theorem answer_readTarget :
    (readTarget q c).answer st = (readStored c ((st.assembly.constraint c).target q)).answer st := by
  have hread : readTarget (α := α) q c = assembly >>= fun a => readStored c ((a.constraint c).target q) := by
    cases q with
    | length => rfl
    | angle => rfl
  rw [hread]
  exact answer_bind_ok rfl

theorem answer_readTarget_some {t : Target α} (h : (st.assembly.constraint c).target q = some t) :
    (readTarget q c).answer st = some <$> (evaluate c t).answer st := by
  rw [answer_readTarget, h]
  exact answer_bind_pure

/-- Reading fails only where a formula does. -/
theorem exists_computed_of_answer_error {fault : Fault α}
    (h : (readTarget q c).answer st = .error fault) : ∃ k, (st.assembly.constraint c).target q = some (.computed k) ∧
      (formula c k.formula).answer st = .error fault := by
  cases ht : (st.assembly.constraint c).target q with
  | none =>
    rw [answer_readTarget, ht] at h
    cases h
  | some t =>
    rw [answer_readTarget_some ht] at h
    cases t with
    | fixed x => cases h
    | computed k =>
      refine ⟨k, rfl, ?_⟩
      have h : some <$> (formula c k.formula).answer st = .error fault := h
      cases hvalue : (formula c k.formula).answer st with
      | ok x =>
        rw [hvalue] at h
        cases h
      | error fault' =>
        rw [hvalue] at h
        cases h
        rfl

/-- After any operations, accepted and refused, what a constraint has stored for a length or an angle is settled by the last
assignment that was accepted: there is nothing if there was none, and otherwise nothing, a number or a computed target, as
that spec leaves it.  A spec that asks for the current value is replaced by the length or angle that the constraint had when
it was assigned, and from then on this is what reading the target answers.  Only the formula of a computed target can fail
to be read. -/
theorem targets_frozen (ambient : Config α) (journal : Journal α) (ops : List (Operation α)) (st : Session α)
    (hst : st = run ops ⟨.empty ambient, journal⟩) (q : Quantity) (c : ConstraintId) (r? : Option (Assignment α))
    (hr : r? = lastAssignment q c ops ⟨.empty ambient, journal⟩) (t? : Option (Target α))
    (ht : t? = (st.assembly.constraint c).target q) :
    (r? = none → t? = none) ∧ (∀ r, r? = some r → r.spec.Stores r.now t?) ∧
      (∀ r, r? = some r → r.spec.AsksCurrent → ∃ x, r.now = .ok x ∧ (readTarget q c).answer st = .ok (some x)) ∧
      ∀ fault, (readTarget q c).answer st = .error fault →
        ∃ k, t? = some (.computed k) ∧ (formula c k.formula).answer st = .error fault := by
  -- the empty session has nothing stored, and every operation stores what its assignment says or leaves what was there
  have hleaves : Leaves none r? t? := by
    have hunmade : ((Assembly.empty ambient).constraint c).target q = none := by
      cases q with
      | length => rfl
      | angle => rfl
    rw [hr, ht, hst, ← hunmade]
    exact leaves_run q c ops ⟨.empty ambient, journal⟩
  have hstores (r : Assignment α) (h : r? = some r) : r.spec.Stores r.now t? := by
    subst h
    cases hleaves with
    | assigned _ _ stores => exact stores
  refine ⟨fun h => ?_, hstores, fun r h asks => ?_, fun fault h => ?_⟩
  · subst h
    cases hleaves with
    | kept => rfl
  · obtain ⟨x, hx, hfixed⟩ := (hstores r h).fixed asks
    exact ⟨x, hx, answer_readTarget_some (ht.symm.trans hfixed)⟩
  · rw [ht]
    exact exists_computed_of_answer_error h

/-- A bar of length one that is to keep its length, and is stretched.  Then it is refused a wanted length of true. -/
noncomputable def keptBar : List (Operation ℝ) :=
  [.newNode 0 0 {}, .newNode 1 0 {}, .newPair 0 1 { length := some (.marker "CONST") },
    .modifyNode 1 fun v => v.moveTo (1 + 1) 0, .setLengthTarget 0 (.number (.flag true))]

/-- It has the length two, and wants to have the length one. -/
theorem targets_frozen_kept :
    lastAssignment .length 0 keptBar ⟨.empty ⟨.int 1, 1, 1⟩, .empty Level.warning⟩ = some ⟨.marker "CONST", .ok 1⟩ ∧
      (run keptBar ⟨.empty ⟨.int 1, 1, 1⟩, .empty Level.warning⟩).assembly.length 0 = .ok 2 ∧
      (readTarget .length 0).answer (run keptBar ⟨.empty ⟨.int 1, 1, 1⟩, .empty Level.warning⟩) = .ok (some 1) := by
  have hlast : lastAssignment .length 0 keptBar ⟨.empty ⟨.int 1, 1, 1⟩, .empty Level.warning⟩ =
      some ⟨.marker "CONST", .ok (Vec.length ⟨1 - 0, 0 - 0⟩)⟩ := rfl
  have hlength : (run keptBar ⟨.empty ⟨.int 1, 1, 1⟩, .empty Level.warning⟩).assembly.length 0 =
      .ok (Vec.length ⟨1 + 1 - 0, 0 - 0⟩) := rfl
  rw [Vec.length_eq_of_sq zero_le_one (by norm_num)] at hlast
  rw [Vec.length_eq_of_sq zero_le_two (by norm_num)] at hlength
  refine ⟨hlast, hlength, ?_⟩
  obtain ⟨x, hx, hread⟩ := (targets_frozen ⟨.int 1, 1, 1⟩ (.empty Level.warning) keptBar _ rfl .length 0 _ rfl _ rfl).2.2.1
    _ hlast (.word "CONST" (by decide))
  cases hx
  exact hread

end Act

end Linkage
