import Linkage.Config.Standard
import Linkage.Proofs.Registry

/-!
# Linkage.Proofs.Refusals — calls that are refused change nothing

Making and registering a constraint and assigning a wanted length or angle fail for reasons that can be read off the
arguments and the registry (`Operation.Refused`), and for no others.  Every check comes before the first lasting effect, of
the call itself and of those that it makes, so a refused call leaves all nodes, systems and constraints as they are
(`run_refusals`).  Of a constraint that was made to be registered and is refused then, nothing but its maker knows.
-/

namespace Linkage

variable {α : Type}

namespace Assembly

/-! ### Registries that refuse -/

/-- A system has registered a constraint under the identifier. -/
def Taken (a : Assembly α) (s : SystemId) (id : Option String) : Prop := ∃ name d, id = some name ∧ a.byId? s name = some d

/-- Why a system does not register a constraint that has been made. -/
inductive Refuses (a : Assembly α) (s : SystemId) (c : ConstraintId) : Prop where
  | foreignOwner (t : SystemId) (h : (a.constraint c).owner = some t) (hne : t ≠ s)
  | duplicateId (id : String) (d : ConstraintId) (h : (a.constraint c).id = some id) (hd : a.byId? s id = some d)
      (hne : d ≠ c)

variable {a : Assembly α} {s : SystemId} {c : ConstraintId}

theorem refusal?_eq_none_iff_not_refuses : a.refusal? s c = none ↔ ¬a.Refuses s c := by
  rw [refusal?_eq_none_iff]
  constructor
  -- each reason contradicts one half of what allows registering
  · rintro ⟨howner, hid⟩ (⟨t, ht, hne⟩ | ⟨id, d, hown, hd, hne⟩)
    · rcases howner with howner | howner
      · rw [howner] at ht
        cases ht
      · exact hne (Option.some.inj (ht.symm.trans howner))
    · exact hne (hid id hown d hd)
  · intro hfree
    constructor
    · by_contra howner
      obtain ⟨hnone, hs⟩ := not_or.mp howner
      obtain ⟨t, ht⟩ := Option.ne_none_iff_exists'.mp hnone
      exact hfree (.foreignOwner t ht fun hts => hs (hts ▸ ht))
    · intro id hown d hd
      by_contra hne
      exact hfree (.duplicateId id d hown hd hne)

theorem refuses_of_refusal? {fault : Fault α} (h : a.refusal? s c = some fault) : a.Refuses s c := by
  by_contra hfree
  rw [refusal?_eq_none_iff_not_refuses.mpr hfree] at h
  cases h

/-- A constraint that was just made is refused exactly if its identifier is taken. -/
theorem refuses_push_iff {k : Constraint α} {id : Option String} (h : Consistent a) (hid : k.id = id)
    (howner : k.owner = none) :
    ({ a with constraints := a.constraints.push k } : Assembly α).Refuses s a.constraints.size ↔ a.Taken s id := by
  have hnew : ({ a with constraints := a.constraints.push k } : Assembly α).constraint a.constraints.size = k := by
    rw [constraint_push, if_pos rfl]
  constructor
  · rintro (⟨t, ht, -⟩ | ⟨name, d, hname, hd, -⟩)
    · rw [hnew, howner] at ht
      cases ht
    · rw [hnew, hid] at hname
      exact ⟨name, d, hname, hd⟩
  · rintro ⟨name, d, hname, hd⟩
    have hmade : d < a.constraints.size := h.made s d ((h.byId?_iff ..).mp hd).1
    exact .duplicateId name d (by rw [hnew, hid, hname]) hd (Nat.ne_of_lt hmade)

/-! ### What is left alone -/

/-- Nothing has happened from `a` to `b` but that constraints may have been made, which no system has. -/
structure Untouched (a b : Assembly α) : Prop where
  nodes : b.nodes = a.nodes
  systems : b.systems = a.systems
  configs : b.configs = a.configs
  ambient : b.ambient = a.ambient
  found : b.found = a.found
  nextKey : b.nextKey = a.nextKey
  readings : b.readings = a.readings
  existing : ∀ c < a.constraints.size, b.constraint c = a.constraint c
  made : ∀ c, a.constraints.size ≤ c → (b.constraint c).owner = none

theorem Untouched.refl (a : Assembly α) : a.Untouched a :=
  ⟨rfl, rfl, rfl, rfl, rfl, rfl, rfl, fun _ _ => rfl, fun _ hc => owner_of_size_le hc⟩

theorem untouched_push {k : Constraint α} (howner : k.owner = none) :
    a.Untouched { a with constraints := a.constraints.push k } := by
  refine ⟨rfl, rfl, rfl, rfl, rfl, rfl, rfl, fun c hc => ?_, fun c hc => ?_⟩
  · rw [constraint_push, if_neg (Nat.ne_of_lt hc)]
  · rw [constraint_push]
    split
    · exact howner
    · exact owner_of_size_le hc

end Assembly

namespace Act

/-! ### What was made -/

/-- Making a constraint with this identifier is refused, or it is entered and no system has it. -/
inductive Drafted (refused : Prop) (id : Option String) (a : Assembly α) (r : Except (Fault α) ConstraintId)
    (b : Assembly α) : Prop where
  | refused (reason : refused) (fault : Fault α) (failed : r = .error fault) (same : b = a)
  | made (free : ¬refused) (k : Constraint α) (named : k.id = id) (unowned : k.owner = none)
      (entered : r = .ok a.constraints.size) (pushed : b = { a with constraints := a.constraints.push k })

section Drafts

variable {a : Assembly α} {refused : Prop} {id : Option String} {made : Except (Fault α) (Constraint α)}
  {k : Constraint α} {fault : Fault α}
  (hcases : (refused ∧ ∃ fault, made = .error fault) ∨
    (¬refused ∧ ∃ k, made = .ok k ∧ k.id = id ∧ k.owner = none))
include hcases

theorem drafted_of_error (h : made = .error fault) : Drafted refused id a (.error fault) a := by
  rcases hcases with ⟨hrefused, -⟩ | ⟨-, k, hk, -⟩
  · exact .refused hrefused fault rfl rfl
  · cases h.symm.trans hk

theorem drafted_of_ok (h : made = .ok k) :
    Drafted refused id a (.ok a.constraints.size) { a with constraints := a.constraints.push k } := by
  rcases hcases with ⟨-, fault, herror⟩ | ⟨hfree, k', hk', hid, howner⟩
  · cases h.symm.trans herror
  · cases h.symm.trans hk'
    exact .made hfree k hid howner rfl rfl

end Drafts

end Act

variable [Scalar α]

/-! ### Reasons -/

/-- The spec stands for no target. -/
def Spec.Rejected (spec : Spec α) : Prop := ∃ fault, spec.coerce = .error fault

/-- Why a pair of two nodes cannot be made. -/
inductive PairOptions.Refused (o : PairOptions α) (first second : NodeId) : Prop where
  | selfConnected (h : first = second)
  | badDirection (h : Direction.ofValue? (o.direction.getD (.int 0)) = none)
  | length (h : (o.length.getD .absent).Rejected)
  | angle (h : (o.angle.getD .absent).Rejected)

/-- Why a triple of three nodes cannot be made. -/
inductive TripleOptions.Refused (o : TripleOptions α) (apex ray arm : NodeId) : Prop where
  | notDistinct (h : apex = ray ∨ apex = arm ∨ ray = arm)
  | angle (h : (o.angle.getD .absent).Rejected)

namespace Operation

/-- The operations that make or register constraints or assign what they want. -/
inductive Edits : Operation α → Prop where
  | newPair (first second : NodeId) (o : PairOptions α) : Edits (.newPair first second o)
  | newTriple (apex ray arm : NodeId) (o : TripleOptions α) : Edits (.newTriple apex ray arm o)
  | add (s : SystemId) (c : ConstraintId) : Edits (.add s c)
  | pair (s : SystemId) (first second : NodeId) (o : PairOptions α) : Edits (.pair s first second o)
  | triple (s : SystemId) (apex ray arm : NodeId) (o : TripleOptions α) : Edits (.triple s apex ray arm o)
  | setLengthTarget (c : ConstraintId) (spec : Spec α) : Edits (.setLengthTarget c spec)
  | setAngleTarget (c : ConstraintId) (spec : Spec α) : Edits (.setAngleTarget c spec)

/-- Why such an operation is refused. -/
def Refused (a : Assembly α) : Operation α → Prop
  | .newPair first second o => o.Refused first second
  | .newTriple apex ray arm o => o.Refused apex ray arm
  | .add s c => a.Refuses s c
  | .pair s first second o => o.Refused first second ∨ a.Taken s o.id.join
  | .triple s apex ray arm o => o.Refused apex ray arm ∨ a.Taken s o.id.join
  | .setLengthTarget c spec => (a.constraint c).shape.kind = .triple ∨ spec.Rejected
  | .setAngleTarget _ spec => spec.Rejected
  | _ => False

end Operation

/-! ### Checks -/

theorem Spec.settle_cases (spec : Spec α) (x : α) :
    (spec.Rejected ∧ ∃ fault, spec.settle (.ok x) = .error fault) ∨
      (¬spec.Rejected ∧ ∃ t?, spec.settle (.ok x) = .ok t?) := by
  unfold Rejected settle
  cases spec.coerce with
  | error fault => exact Or.inl ⟨⟨fault, rfl⟩, fault, rfl⟩
  | ok coerced =>
    refine Or.inr ⟨by rintro ⟨_, ⟨⟩⟩, ?_⟩
    cases coerced with
    | absent => exact ⟨none, rfl⟩
    | current => exact ⟨some (.fixed x), rfl⟩
    | target t => exact ⟨some t, rfl⟩

namespace Constraint

variable (node : NodeId → Node α)

/-- What is made has the identifier given and no owner. -/
theorem pair_cases (first second : NodeId) (o : PairOptions α) :
    (o.Refused first second ∧ ∃ fault, Constraint.pair node first second o = .error fault) ∨
      (¬o.Refused first second ∧ ∃ k, Constraint.pair node first second o = .ok k ∧ k.id = o.id.join ∧ k.owner = none) := by
  unfold Constraint.pair
  -- the checks in the order in which they are made: the first that fails gives the fault
  by_cases hself : first = second
  · rw [if_pos hself]
    exact Or.inl ⟨.selfConnected hself, _, rfl⟩
  rw [if_neg hself]
  cases hdirection : Direction.ofValue? (o.direction.getD (.int 0)) with
  | none => exact Or.inl ⟨.badDirection hdirection, _, by simp only [hdirection]; rfl⟩
  | some direction =>
    simp only [hdirection]
    rcases (o.length.getD .absent).settle_cases ((node first).vectorTo (node second)).length with
      ⟨hlength, fault, herror⟩ | ⟨hlength, length, hok⟩
    · exact Or.inl ⟨.length hlength, fault, by simp only [Shape.length, herror]; rfl⟩
    · rcases (o.angle.getD .absent).settle_cases ((node first).vectorTo (node second)).angle with
        ⟨hangle, fault, herror⟩ | ⟨hangle, angle, hok'⟩
      · exact Or.inl ⟨.angle hangle, fault, by simp only [Shape.length, Shape.angle, hok, herror]; rfl⟩
      · refine Or.inr ⟨?_, _, by simp only [Shape.length, Shape.angle, hok, hok']; rfl, rfl, rfl⟩
        rintro (h | h | h | h)
        · exact hself h
        · rw [hdirection] at h
          cases h
        · exact hlength h
        · exact hangle h

theorem triple_cases (apex ray arm : NodeId) (o : TripleOptions α) :
    (o.Refused apex ray arm ∧ ∃ fault, Constraint.triple node apex ray arm o = .error fault) ∨
      (¬o.Refused apex ray arm ∧
        ∃ k, Constraint.triple node apex ray arm o = .ok k ∧ k.id = o.id.join ∧ k.owner = none) := by
  unfold Constraint.triple
  by_cases hsame : apex = ray ∨ apex = arm ∨ ray = arm
  · rw [if_pos hsame]
    exact Or.inl ⟨.notDistinct hsame, _, rfl⟩
  rw [if_neg hsame]
  rcases (o.angle.getD .absent).settle_cases ((Shape.triple apex ray arm).angle node) with
    ⟨hangle, fault, herror⟩ | ⟨hangle, angle, hok⟩
  · exact Or.inl ⟨.angle hangle, fault, by simp only [herror]; rfl⟩
  · refine Or.inr ⟨?_, _, by simp only [hok]; rfl, rfl, rfl⟩
    rintro (h | h)
    · exact hsame h
    · exact hangle h

end Constraint

open Assembly (Consistent Refuses refusal?_eq_none_iff_not_refuses refuses_of_refusal? refuses_push_iff untouched_push)

/-! ### Outcomes -/

/-- The operation is refused and has touched nothing, or it is done. -/
inductive Operation.Ends (op : Operation α) (a : Assembly α) {β : Type} (r : Except (Fault α) β) (b : Assembly α) : Prop where
  | refused (reason : op.Refused a) (fault : Fault α) (failed : r = .error fault) (untouched : a.Untouched b)
  | done (free : ¬op.Refused a) (x : β) (answered : r = .ok x)

namespace Act

variable {a : Assembly α} {refused : Prop} {id : Option String}

theorem drafted_newPair (a : Assembly α) (first second : NodeId) (o : PairOptions α) :
    Runs (newPair first second o) a (Drafted (o.Refused first second) o.id.join a) :=
  have hcases := Constraint.pair_cases a.node first second o
  runs_newPair (fun _ => drafted_of_error hcases) fun _ => drafted_of_ok hcases

theorem drafted_newTriple (a : Assembly α) (apex ray arm : NodeId) (o : TripleOptions α) :
    Runs (newTriple apex ray arm o) a (Drafted (o.Refused apex ray arm) o.id.join a) :=
  have hcases := Constraint.triple_cases a.node apex ray arm o
  runs_newTriple (fun _ => drafted_of_error hcases) fun _ => drafted_of_ok hcases

/-- Making a constraint alone. -/
theorem Drafted.ends {op : Operation α} {r : Except (Fault α) ConstraintId} {b : Assembly α}
    (h : Drafted refused id a r b) (hop : op.Refused a ↔ refused) : op.Ends a r b := by
  cases h with
  | refused reason fault failed same =>
    subst same
    exact .refused (hop.mpr reason) fault failed (.refl _)
  | made free k named unowned entered pushed => exact .done (fun h => free (hop.mp h)) _ entered

/-- Making a constraint to register it: it may still be refused then, if its identifier is taken. -/
theorem ends_register {op : Operation α} {p : Act α ConstraintId} {s : SystemId} (h : Consistent a)
    (hp : Runs p a (Drafted refused id a)) (hop : op.Refused a ↔ refused ∨ a.Taken s id) :
    Runs (p >>= add s) a (op.Ends a) := by
  refine runs_bind (hp.mono fun r b hrb => ?_)
  cases hrb with
  | refused reason fault failed same =>
    subst failed same
    exact .refused (hop.mpr (Or.inl reason)) fault rfl (.refl _)
  -- the constraint is in the table then, but no system and no node knows of it
  | made free k named unowned entered pushed =>
    subst entered pushed
    rw [then_ok]
    have hrefuses : Refuses { a with constraints := a.constraints.push k } s a.constraints.size ↔ a.Taken s id :=
      refuses_push_iff h named unowned
    refine runs_add (fun fault hfault => ?_) fun hfree => ?_
    · have htaken : a.Taken s id := hrefuses.mp (refuses_of_refusal? hfault)
      exact .refused (hop.mpr (Or.inr htaken)) fault rfl (untouched_push unowned)
    · refine .done (fun hrefused => ?_) _ rfl
      rcases hop.mp hrefused with hreason | htaken
      · exact free hreason
      · exact refusal?_eq_none_iff_not_refuses.mp hfree (hrefuses.mpr htaken)

/-- An assignment is refused with its spec. -/
theorem ends_assign {op : Operation α} {spec : Spec α} {x : α} {f : Option (Target α) → Assembly α → Assembly α}
    (hop : op.Refused a ↔ spec.Rejected) :
    Runs (do
      let t ← ofExcept (spec.settle (.ok x))
      change (f t)) a (op.Ends a) := by
  refine runs_bind (runs_ofExcept ?_)
  rcases spec.settle_cases x with ⟨hrejected, fault, herror⟩ | ⟨hfree, t, hok⟩
  · rw [herror, then_error]
    exact .refused (hop.mpr hrejected) fault rfl (.refl _)
  · rw [hok, then_ok]
    exact runs_change (.done (fun h => hfree (hop.mp h)) _ rfl)

/-- Every such operation is refused for its reasons, and touches nothing then, or it is done. -/
theorem runs_edit {op : Operation α} (hop : op.Edits) {a : Assembly α} (h : Consistent a) :
    Runs op.act.2 a (op.Ends a) := by
  cases hop with
  | newPair first second o => exact (drafted_newPair a first second o).mono fun r b hrb => hrb.ends Iff.rfl
  | newTriple apex ray arm o => exact (drafted_newTriple a apex ray arm o).mono fun r b hrb => hrb.ends Iff.rfl
  | add s c =>
    exact runs_add (fun fault hfault => .refused (refuses_of_refusal? hfault) fault rfl (.refl a))
      fun hfree => .done (refusal?_eq_none_iff_not_refuses.mp hfree) _ rfl
  | pair s first second o =>
    refine runs_pair (fun fault refusal hrefusal => ?_) (ends_register h (drafted_newPair a first second o) Iff.rfl)
    rcases Constraint.pair_cases a.node first second o with ⟨reason, -⟩ | ⟨-, k, hk, -⟩
    · exact .refused (Or.inl reason) fault rfl (.refl a)
    · cases hk.symm.trans hrefusal
  | triple s apex ray arm o =>
    refine runs_triple (fun fault refusal hrefusal => ?_) (ends_register h (drafted_newTriple a apex ray arm o) Iff.rfl)
    rcases Constraint.triple_cases a.node apex ray arm o with ⟨reason, -⟩ | ⟨-, k, hk, -⟩
    · exact .refused (Or.inl reason) fault rfl (.refl a)
    · cases hk.symm.trans hrefusal
  | setLengthTarget c spec =>
    refine runs_read ?_
    dsimp only
    split
    case h_1 apex ray arm hshape =>
      have hreason : (Operation.setLengthTarget c spec).Refused a := Or.inl (congrArg Shape.kind hshape)
      exact runs_throw (.refused hreason _ rfl (.refl a))
    case h_2 first second direction hshape =>
      have hreason : (Operation.setLengthTarget c spec).Refused a ↔ spec.Rejected := by
        refine or_iff_right ?_
        rw [hshape]
        rintro ⟨⟩
      have hlength : a.length c = .ok ((a.node first).vectorTo (a.node second)).length := by
        unfold Assembly.length
        rw [hshape]
        rfl
      rw [hlength]
      exact ends_assign hreason
  | setAngleTarget c spec => exact runs_read (ends_assign Iff.rfl)

end Act

/-- In a session reached by any operations, making or registering a constraint and assigning what one wants fails exactly
for its reasons: another owner, a taken identifier, a repeated node, a bad direction, a rejected target, or a length for a
triple.  When it does, it leaves every node and system, whatever else the session has, and every constraint that there was
as they are, and any other constraint belongs to no system. -/
theorem run_refusals (ambient : Config α) (journal : Journal α) (ops : List (Operation α)) (st : Session α)
    (hst : st = run ops ⟨.empty ambient, journal⟩) (op : Operation α) (hop : op.Edits) :
    ((∃ fault, op.act.2.answer st = .error fault) ↔ op.Refused st.assembly) ∧
      ∀ fault, op.act.2.answer st = .error fault → st.assembly.Untouched (op.after st).assembly := by
  have hconsistent : Consistent st.assembly := by
    rw [hst]
    exact consistent_run (Assembly.consistent_empty ambient) ops
  cases (Act.runs_edit hop hconsistent).at_session with
  | refused reason fault failed untouched =>
    exact ⟨⟨fun _ => reason, fun _ => ⟨fault, failed⟩⟩, fun _ _ => untouched⟩
  | done free x answered =>
    refine ⟨⟨?_, fun hrefused => absurd hrefused free⟩, ?_⟩
    · rintro ⟨fault, failed⟩
      cases answered.symm.trans failed
    · intro fault failed
      cases answered.symm.trans failed

/-- A rod on two of three nodes. -/
def oneRod : Session Float :=
  run [.newSystem none, .node 0 0 0 {}, .node 0 3 0 {}, .node 0 0 4 {}, .pair 0 0 1 { id := some (some "rod") }]
    ⟨.empty .standard, .empty Level.warning⟩

/-- A rod of the same name. -/
def secondRod : Operation Float := .pair 0 0 2 { id := some (some "rod") }

/-- The second rod is made and not registered. -/
theorem run_refusals_rod : (∃ fault, secondRod.act.2.answer oneRod = .error fault) ∧
    oneRod.assembly.Untouched (secondRod.after oneRod).assembly := by
  obtain ⟨hiff, huntouched⟩ := run_refusals .standard (.empty Level.warning) _ oneRod rfl secondRod (.pair 0 0 2 _)
  have htaken : oneRod.assembly.Taken 0 (some "rod") := ⟨"rod", 0, rfl, rfl⟩
  obtain ⟨fault, hfault⟩ := hiff.mpr (Or.inr htaken)
  exact ⟨⟨fault, hfault⟩, huntouched fault hfault⟩

end Linkage
