import Linkage.Proofs.Agreement
import Linkage.Proofs.Operation

/-!
# Linkage.Proofs.Composition — what operations are made of

Actions are put together from a few primitive ones by sequencing, by looking at an outcome, and by tracing what can be
written in any case (`Composed`).  What holds of the primitive actions and passes through these three so holds of all
that is put together; the first use is that it does not see the journal (`Composed.blind`).  An operation is such an action,
or is traced around one and shows what its user gives (`Called`, `Operation.called`).
-/

namespace Linkage

variable {α : Type}

/-- A message that is not about a call. -/
def Message.IsPlain : Message α → Prop
  | .entering .. | .leaving .. | .failing .. => False
  | _ => True

namespace Act

variable [Scalar α] {β γ : Type}

/-- An action that is put together from primitive ones; calls are reported by tracing alone, and can be written. -/
inductive Composed : ∀ {β : Type}, Act α β → Prop where
  | value {β : Type} (b : β) : Composed (pure b)
  | fault {β : Type} (e : Fault α) : Composed (throw e : Act α β)
  | assembly : Composed assembly
  | change (f : Assembly α → Assembly α) : Composed (change f)
  | report (channel : Channel) (level : Level) {message : Message α} (plain : message.IsPlain) :
      Composed (report channel level message)
  | notice (d : Deprecation) : Composed (notice d)
  | bind {β γ : Type} {p : Act α β} {f : β → Act α γ} (first : Composed p) (next : ∀ b, Composed (f b)) :
      Composed (p >>= f)
  | outcome {β : Type} {p : Act α β} (whole : Composed p) : Composed (outcome p)
  | traced {β : Type} (channel : Channel) (operation : String) (call : Assembly α → Call α)
      (result : Assembly α → β → Option (Value α)) {p : Act α β} (writable : Writable call result) (whole : Composed p) :
      Composed (traced channel operation call result p)

/-- An operation with a call that is written unless `refused` says why not: what it shows besides can be written. -/
inductive Called (refused : (room : Nat) → Option (Fault α)) : ∀ {β : Type}, Act α β → Prop where
  | composed {β : Type} {p : Act α β} (whole : Composed p) (never : ∀ room, refused room = none) : Called refused p
  | given {β : Type} (operation : String) (call : Assembly α → Call α) (result : Assembly α → β → Option (Value α))
      {p : Act α β} (whole : Composed p) (shown : ∀ a, (call a).refusal? = refused)
      (answers : ∀ a b room, ((result a b).bind fun v => v.refusal? Value.shownItems room) = none) :
      Called refused (traced .system operation call result p)

variable {p : Act α β} {f : β → Act α γ}

/-! ### Other ways of putting actions together -/

theorem composed_ofExcept (r : Except (Fault α) β) : Composed (ofExcept r) := by
  cases r with
  | ok b => exact .value b
  | error e => exact .fault e

theorem composed_read {f : Assembly α → Act α β} (h : ∀ a, Composed (f a)) : Composed (assembly >>= f) :=
  .bind .assembly h

/-- A value computed from the answer. -/
theorem Composed.map (h : Composed p) (g : β → γ) : Composed (p >>= fun b => pure (g b)) :=
  .bind h fun b => .value (g b)

theorem Composed.discard (h : Composed p) : Composed (discard p) := h.map fun _ => ()

theorem composed_forM {δ : Type} {f : δ → Act α PUnit} (h : ∀ x, Composed (f x)) (xs : List δ) :
    Composed (xs.forM f) := by
  induction xs with
  | nil => exact .value _
  | cons x rest ih => exact .bind (h x) fun _ => ih

/-! ### The journal is not seen -/

/-- An action that is put together answers and does the same, whatever the journal. -/
theorem Composed.blind (h : Composed p) : Blind Eq p := by
  induction h with
  | value b => exact blind_pure b
  | fault e => exact blind_throw e
  | assembly => exact fun a b hab => runs_assembly (runs_assembly ⟨hab, hab⟩)
  | change f => exact fun a b hab => agree_change (congrArg f hab)
  | report channel level plain => exact fun a b hab => agree_report hab
  | notice d => exact fun a b hab => runs_notice (runs_notice ⟨rfl, hab⟩)
  | bind _ _ ihp ihf => exact ihp.bind ihf
  | outcome _ ih => exact ih.outcome
  | traced channel operation call result writable _ ih => exact ih.traced writable

/-- Answer and assembly do not depend on the journal. -/
theorem Composed.same_answer (h : Composed p) (a : Assembly α) (j j' : Journal α) :
    p.answer ⟨a, j⟩ = p.answer ⟨a, j'⟩ ∧ (p.after ⟨a, j⟩).assembly = (p.after ⟨a, j'⟩).assembly := by
  obtain ⟨hanswer, hassembly⟩ := h.blind a a rfl j j'
  exact ⟨hanswer.eq, hassembly⟩

/-- What an action that is put together does once, it does with whatever journal. -/
theorem Composed.runs_of_answer {β : Type} {p : Act α β} (h : Composed p) {st : Session α} {r : Except (Fault α) β}
    (hanswer : p.answer st = r) : Runs p st.assembly fun r' b => r' = r ∧ b = (p.after st).assembly := by
  intro j
  obtain ⟨hsame, hassembly⟩ := h.same_answer st.assembly j st.journal
  exact ⟨hsame.trans hanswer, hassembly⟩

/-- An operation answers and does the same in two journals that do not refuse it. -/
theorem Called.same_answer {refused : Nat → Option (Fault α)} (h : Called refused p) (a : Assembly α) {j j' : Journal α}
    (hj : j.admits .system .debug → refused j.room = none) (hj' : j'.admits .system .debug → refused j'.room = none) :
    p.answer ⟨a, j⟩ = p.answer ⟨a, j'⟩ ∧ (p.after ⟨a, j⟩).assembly = (p.after ⟨a, j'⟩).assembly := by
  cases h with
  | composed whole never => exact whole.same_answer a j j'
  | @given operation call result work whole shown answers =>
    -- both do what the work does in some journal
    have hwork := whole.runs_of_answer (rfl : work.answer ⟨a, j⟩ = _)
    have hcall {k : Journal α} (hk : k.admits .system .debug → refused k.room = none) :
        refused? .system call ⟨a, k⟩ = none := by
      by_cases hadmits : k.admits .system .debug
      · rw [refused?_shown hadmits, shown, hk hadmits]
      · exact refused?_hidden hadmits
    obtain ⟨hanswer, hafter⟩ := hwork.at_traced (hcall hj) answers
    obtain ⟨hanswer', hafter'⟩ := hwork.at_traced (hcall hj') answers
    exact ⟨hanswer.trans hanswer'.symm, hafter.trans hafter'.symm⟩

/-- A call that is refused does nothing and records nothing. -/
theorem Called.apply_of_refused {refused : Nat → Option (Fault α)} (h : Called refused p) {st : Session α}
    {fault : Fault α} (hadmits : st.journal.admits .system .debug) (hfault : refused st.journal.room = some fault) :
    p st = .error fault st := by
  cases h with
  | composed whole never => cases (never _).symm.trans hfault
  | given operation call result whole shown answers =>
    refine traced_of_refused ?_
    rw [refused?_shown hadmits, shown, hfault]

/-- An operation that is never refused is put together like any other action. -/
theorem Called.whole {refused : Nat → Option (Fault α)} (h : Called refused p) (hnever : ∀ room, refused room = none) :
    Composed p := by
  cases h with
  | composed whole never => exact whole
  | given operation call result whole shown answers =>
    exact .traced _ _ _ _ ⟨fun a room => by rw [shown a, hnever room], answers⟩ whole

/-! ### The parts of operations -/

theorem composed_meet {pass : α → Act α Bool} (h : ∀ target, Composed (pass target)) (target? : Option α) :
    Composed (meet pass target?) := by
  cases target? with
  | none => exact .value true
  | some target => exact h target

theorem composed_enter (k : Constraint α) : Composed (enter k) :=
  composed_read fun _ => .bind (.change _) fun _ => .value _

theorem composed_newReference (ref : String) (quantity : Quantity) : Composed (newReference (α := α) ref quantity) :=
  composed_read fun _ => .bind (.change _) fun _ => .value _

theorem Composed.making {make : Act α (Combinator α)} (h : Composed make) (operation : String) (args : List (Value α))
    (hargs : ∀ room, ({ args := args } : Call α).refusal? room = none := by exact fun _ => rfl) :
    Composed (making operation args make) := .traced _ _ _ _ (writable_making hargs) h

theorem composed_newConfig (cfg : Config α) : Composed (newConfig cfg) :=
  composed_read fun _ => .bind (.change _) fun _ => .value _

theorem composed_newSystem (config : Option ConfigId) : Composed (newSystem (α := α) config) := by
  have hpush (k : ConfigId) : Composed (α := α) (do
      let s := (← assembly).systems.size
      change fun a => { a with systems := a.systems.push ⟨k, [], [], []⟩ }
      return s) := composed_read fun _ => .bind (.change _) fun _ => .value _
  cases config with
  | some k => exact .bind (.value k) hpush
  | none => exact .bind (composed_read fun a => composed_newConfig a.ambient) hpush

/-! ### Reading targets -/

theorem composed_byId? (s : SystemId) (id : Option String) : Composed (byId? (α := α) s id) :=
  .traced _ _ _ _ (writable_byId? id) (composed_read fun _ => .value _)

theorem composed_resolve (c : ConstraintId) (ref : String) : Composed (resolve (α := α) c ref) := by
  refine composed_read fun a => ?_
  dsimp only
  cases (a.constraint c).owner with
  | none => exact .fault _
  | some s =>
    refine .bind (composed_byId? s (some ref)) fun found? => ?_
    cases found? with
    | none => exact .fault _
    | some found => exact .value found

theorem composed_follow (r : Reference) (c : ConstraintId) : Composed (follow (α := α) r c) := by
  refine composed_read fun a => ?_
  dsimp only
  split
  · exact .value _
  · refine .bind (composed_resolve c r.ref) fun found => composed_read fun a' => ?_
    split
    · cases (a.constraint c).owner with
      | none => exact .bind (.report _ _ trivial) fun _ => .value found
      | some s => exact .bind (.change _) fun _ => .bind (.report _ _ trivial) fun _ => .value found
    · exact .fault _

theorem composed_ownLength (c : ConstraintId) : Composed (ownLength (α := α) c) :=
  composed_read fun _ => composed_ofExcept _

theorem composed_ownAngle (c : ConstraintId) : Composed (ownAngle (α := α) c) := composed_read fun _ => .value _

theorem composed_lengthAt (r : Reference) (c : ConstraintId) : Composed (lengthAt (α := α) r c) :=
  .bind (composed_follow r c) composed_ownLength

theorem composed_angleAt (r : Reference) (c : ConstraintId) : Composed (angleAt (α := α) r c) :=
  .bind (composed_follow r c) composed_ownAngle

theorem composed_formula (c : ConstraintId) (k : Formula α) : Composed (formula c k) := by
  have hangles (r : Reference) (g : α → α → Act α α) (h : ∀ w own, Composed (g w own)) :
      Composed (angleAt r c >>= fun w => ownAngle c >>= g w) :=
    .bind (composed_angleAt r c) fun w => .bind (composed_ownAngle c) (h w)
  cases k with
  | ownLengthMin least => exact (composed_ownLength c).map _
  | ownLengthMax most => exact (composed_ownLength c).map _
  | ownLengthRange least most => exact (composed_ownLength c).map _
  | lengthOf r factor => exact (composed_lengthAt r c).map _
  | ownAngleMin least => exact (composed_ownAngle c).map _
  | ownAngleMax most => exact (composed_ownAngle c).map _
  | ownAngleRange least most => exact (composed_ownAngle c).map _
  | angleOf r offset => exact (composed_angleAt r c).map _
  | around r least most => exact hangles r _ fun _ _ => .value _
  | obtuse r =>
    refine hangles r _ fun w own => ?_
    dsimp only
    split
    · exact .value _
    · exact .value _
  | between r₁ r₂ scale => exact .bind (composed_angleAt r₁ c) fun w => (composed_angleAt r₂ c).map _
  | callable read => exact composed_read fun _ => .bind (.change _) fun _ => composed_ofExcept _

theorem composed_evaluate (c : ConstraintId) (t : Target α) : Composed (evaluate c t) := by
  cases t with
  | fixed x => exact .value x
  | computed k => exact composed_formula c k.formula

theorem composed_targetLength (c : ConstraintId) : Composed (targetLength (α := α) c) := by
  refine composed_read fun a => ?_
  cases (a.constraint c).lengthTarget with
  | none => exact .value none
  | some t => exact (composed_evaluate c t).map some

theorem composed_targetAngle (c : ConstraintId) : Composed (targetAngle (α := α) c) := by
  refine composed_read fun a => ?_
  cases (a.constraint c).angleTarget with
  | none => exact .value none
  | some t => exact (composed_evaluate c t).map some

/-! ### Correcting and measuring -/

theorem composed_onEnds (first second : NodeId) (pass : Pass α (Ends α) β) : Composed (onEnds first second pass) := by
  refine composed_read fun a => ?_
  split
  · exact .bind (.change _) fun _ => .value _
  · exact .bind (.change _) fun _ => .fault _

theorem composed_onCorner (apex ray arm : NodeId) (pass : Pass α (Corner α) β) :
    Composed (onCorner apex ray arm pass) := by
  refine composed_read fun a => ?_
  split
  · exact .bind (.change _) fun _ => .value _
  · exact .bind (.change _) fun _ => .fault _

theorem composed_correctOne (c : ConstraintId) : Composed (correctOne (α := α) c) := by
  refine composed_read fun a => ?_
  cases (a.constraint c).shape with
  | pair first second direction =>
    refine .bind (composed_targetAngle c) fun angle? => .bind (composed_meet (fun _ => composed_onEnds ..) _) fun _ => ?_
    refine .bind (composed_targetLength c) fun length? => ?_
    exact (composed_meet (fun _ => composed_onEnds ..) _).map _
  | triple apex ray arm =>
    cases (a.constraint c).angleTarget with
    | none => exact .value true
    | some t =>
      dsimp only
      split
      · exact .value true
      · exact .bind (composed_evaluate c t) fun _ => composed_onCorner ..

theorem composed_residualsOf (c : ConstraintId) : Composed (residualsOf (α := α) c) := by
  have hlength : Composed (lengthResidual (α := α) c) := by
    refine composed_read fun a => ?_
    dsimp only
    split
    · exact .value []
    · refine .bind (composed_targetLength c) fun target? => ?_
      cases target? with
      | none => exact .value []
      | some target => exact (composed_ownLength c).map _
  have hangle : Composed (angleResidual (α := α) c) := by
    refine composed_read fun a => .bind (composed_targetAngle c) fun target? => ?_
    cases target? with
    | none => exact .value []
    | some target => exact (composed_ownAngle c).map _
  exact .bind hlength fun _ => hangle.map _

theorem composed_describe (c : ConstraintId) : Composed (describe (α := α) c) := by
  refine composed_read fun a => ?_
  dsimp only
  split
  · refine .bind (composed_ofExcept _) fun _ => .bind (composed_ofExcept _) fun _ => ?_
    refine .bind (composed_ofExcept _) fun _ => .bind (composed_targetLength c) fun _ => ?_
    exact (composed_targetAngle c).map _
  · refine .bind (composed_ofExcept _) fun _ => .bind (composed_ofExcept _) fun _ => ?_
    exact .bind (composed_ofExcept _) fun _ => (composed_targetAngle c).map _

/-! ### Relaxing and reporting -/

theorem composed_correctAll (constraints : List ConstraintId) : Composed (correctAll (α := α) constraints) := by
  induction constraints with
  | nil => exact .value true
  | cons c rest ih => exact .bind (composed_correctOne c) fun _ => ih.map _

theorem composed_sweepsFrom (s : SystemId) (constraints : List ConstraintId) (left done : Nat) :
    Composed (sweepsFrom (α := α) s constraints left done) := by
  induction left generalizing done with
  | zero => exact .value _
  | succ left ih =>
    refine .bind (.bind (.change _) fun _ => composed_correctAll constraints) fun met => composed_read fun a => ?_
    split
    · exact .bind (.report _ _ trivial) fun _ => .value _
    · split
      · exact .value _
      · exact ih (done + 1)

theorem composed_rollback (s : SystemId) : Composed (rollback (α := α) s) :=
  .traced _ _ _ _ ⟨fun _ _ => rfl, fun _ _ _ => rfl⟩ (composed_read fun _ => .change _)

theorem composed_correct (s : SystemId) : Composed (correct (α := α) s) := by
  refine .traced _ _ _ _ ⟨fun _ _ => rfl, fun _ _ _ => rfl⟩ (composed_read fun a => ?_)
  refine .bind (.outcome (composed_sweepsFrom ..)) fun verdict => ?_
  cases verdict with
  | error fault => exact .bind (composed_rollback s) fun _ => .fault fault
  | ok verdict =>
    cases verdict with
    | unmet done => exact .bind (composed_rollback s) fun _ => .bind (.report _ _ trivial) fun _ => .value 0
    | met done => exact .bind (.report _ _ trivial) fun _ => .value done

theorem composed_residualsOfAll (constraints : List ConstraintId) : Composed (residualsOfAll (α := α) constraints) := by
  induction constraints with
  | nil => exact .value []
  | cons c rest ih => exact .bind (composed_residualsOf c) fun _ => ih.map _

theorem composed_residuals (s : SystemId) : Composed (residuals (α := α) s) :=
  .traced _ _ _ _ writable_residuals (composed_read fun _ => (composed_residualsOfAll _).map _)

theorem called_solve (s : SystemId) (limit : Option Int) :
    Called (Call.refusal? { args := (limit.map Value.int).toList }) (solve (α := α) s limit) :=
  .given _ _ _ (.bind (composed_correct s) fun _ => .bind (composed_residuals s) fun _ => composed_read fun _ => .value _)
    (fun _ => rfl) fun _ _ _ => rfl

theorem composed_solveAnnounced (s : SystemId) : Composed (solveAnnounced (α := α) s) :=
  composed_read fun _ => .bind (.report _ _ trivial) fun _ => .bind ((called_solve s none).whole fun _ => rfl) fun _ =>
    .bind (.report _ _ trivial) fun _ => .value _

theorem called_log (s : SystemId) (level : Option Level) :
    Called (Call.refusal? { args := (level.map Value.int).toList }) (log (α := α) s level) :=
  .given _ _ _ (composed_read fun _ => composed_forM (fun c => .bind (composed_describe c) fun _ =>
    .report _ _ (by trivial)) _) (fun _ => rfl) fun _ _ _ => rfl

/-! ### Making and registering -/

theorem composed_newNode (x y : α) (o : NodeOptions α) : Composed (newNode x y o) :=
  composed_read fun _ => .bind (.change _) fun _ => .value _

theorem composed_addNode (s : SystemId) (n : NodeId) : Composed (addNode (α := α) s n) :=
  .traced _ _ _ _ ⟨fun _ _ => rfl, fun _ _ _ => rfl⟩ (.bind (.change _) fun _ => .value n)

theorem composed_newPair (first second : NodeId) (o : PairOptions α) : Composed (newPair first second o) :=
  composed_read fun _ => .bind (composed_ofExcept _) composed_enter

theorem composed_newTriple (apex ray arm : NodeId) (o : TripleOptions α) : Composed (newTriple apex ray arm o) :=
  .bind (.notice _) fun _ => composed_read fun _ => .bind (composed_ofExcept _) composed_enter

theorem composed_add (s : SystemId) (c : ConstraintId) : Composed (add (α := α) s c) := by
  refine .traced _ _ _ _ ⟨fun _ _ => rfl, fun _ _ _ => rfl⟩ (composed_read fun a => ?_)
  cases a.refusal? s c with
  | some fault => exact .fault fault
  | none =>
    refine .bind (.change _) fun _ => .bind (composed_forM (fun n => (composed_addNode s n).discard) _) fun _ => ?_
    exact .bind (.change _) fun _ => composed_read fun _ => .bind (.report _ _ trivial) fun _ => .value c

theorem composed_setLengthTarget (c : ConstraintId) (spec : Spec α) : Composed (setLengthTarget c spec) := by
  refine composed_read fun a => ?_
  dsimp only
  split
  · exact .fault _
  · exact .bind (composed_ofExcept _) fun _ => .change _

theorem composed_setAngleTarget (c : ConstraintId) (spec : Spec α) : Composed (setAngleTarget c spec) :=
  composed_read fun _ => .bind (composed_ofExcept _) fun _ => .change _

/-! ### Factories -/

theorem composed_make (recipe : Recipe α) : Composed recipe.make := by
  have hone (ref : String) (quantity : Quantity) (g : Reference → Combinator α) :
      Composed (α := α) (newReference ref quantity >>= fun r => pure (g r)) := (composed_newReference ref quantity).map g
  have haround (ref : String) (least most : α) (name : Label α) : Composed (angleAround ref least most name) :=
    (hone ref .angle _).making ..
  have hfrom (ref : String) (offset : Option α) : Composed (angleFrom ref offset) :=
    (hone ref .angle _).making _ _ (Call.refusal?_withNumber [ref] offset)
  have hrange (ref : String) (least most : α) : Composed (angleRangeFrom ref least most) := (haround ..).making ..
  cases recipe with
  | lengthMin least => exact Composed.making (.value _) ..
  | lengthMax most => exact Composed.making (.value _) ..
  | lengthRange least most => exact Composed.making (.value _) ..
  | lengthFrom ref scale => exact (hone ref .length _).making _ _ (Call.refusal?_withScale ref scale)
  | angleMin least => exact Composed.making (.value _) ..
  | angleMax most => exact Composed.making (.value _) ..
  | angleRange least most => exact Composed.making (.value _) ..
  | angleFrom ref offset => exact hfrom ref offset
  | anglePosFrom ref => exact (haround ..).making ..
  | angleNegFrom ref => exact (haround ..).making ..
  | angleAcuteFrom ref => exact (haround ..).making ..
  | angleObtuseFrom ref => exact (hone ref .angle _).making ..
  | angleRangeFrom ref least most => exact hrange ref least most
  | angleDelta first second scale =>
    exact .making (.bind (composed_newReference first .angle) fun _ => hone second .angle _) _ _
      (Call.refusal?_withNumber [first, second] scale)
  | angleInclude ref offset => exact .bind (.notice _) fun _ => hfrom ref (some offset)
  | angleInclRange ref least most => exact .bind (.notice _) fun _ => hrange ref least most

end Act

namespace Operation

variable [Scalar α]

/-- The arguments of an operation that may be such that they cannot be written. -/
def given : Operation α → Call α
  | .pair _ _ _ o => { named := o.named }
  | .triple _ _ _ _ o => { named := o.named }
  | .solve _ limit => { args := (limit.map Value.int).toList }
  | .log _ level => { args := (level.map Value.int).toList }
  | _ => {}

/-- Why what is given to an operation cannot be written, where there is room for so many layers of lists inside. -/
def refusal? (op : Operation α) : (room : Nat) → Option (Fault α) := op.given.refusal?

/-- Every operation is put together from primitive actions, or is traced around what is and shows what its user gives. -/
theorem called (op : Operation α) : op.act.2.Called op.refusal? := by
  have hcomposed {β : Type} {p : Act α β} (h : p.Composed) : p.Called fun _ => none := .composed h fun _ => rfl
  -- only pairs, triples, solve and log show what their user gives; the calls of the others can always be written
  cases op with
  | newNode x y o => exact hcomposed (Act.composed_newNode x y o)
  | modifyNode n f => exact hcomposed (.change fun a => a.setNode n (f (a.node n)))
  | addNode s n => exact hcomposed (Act.composed_addNode s n)
  | node s x y o =>
    exact hcomposed (.traced _ _ _ _ (Act.writable_node x y o)
      (.bind (Act.composed_newNode x y o) (Act.composed_addNode s)))
  | newPair first second o => exact hcomposed (Act.composed_newPair first second o)
  | newTriple apex ray arm o => exact hcomposed (Act.composed_newTriple apex ray arm o)
  | add s c => exact hcomposed (Act.composed_add s c)
  | pair s first second o =>
    exact .given _ _ _ (.bind (Act.composed_newPair first second o) (Act.composed_add s)) (fun _ => rfl) fun _ _ _ => rfl
  | triple s apex ray arm o =>
    exact .given _ _ _ (.bind (Act.composed_newTriple apex ray arm o) (Act.composed_add s)) (fun _ => rfl) fun _ _ _ => rfl
  | setLengthTarget c spec => exact hcomposed (Act.composed_setLengthTarget c spec)
  | setAngleTarget c spec => exact hcomposed (Act.composed_setAngleTarget c spec)
  | make recipe => exact hcomposed (Act.composed_make recipe)
  | evaluate c t => exact hcomposed (Act.composed_evaluate c t)
  | targetLength c => exact hcomposed (Act.composed_targetLength c)
  | targetAngle c => exact hcomposed (Act.composed_targetAngle c)
  | resolve c ref => exact hcomposed (Act.composed_resolve c ref)
  | byId? s id => exact hcomposed (Act.composed_byId? s id)
  | correctOne c => exact hcomposed (Act.composed_correctOne c)
  | residualsOf c => exact hcomposed (Act.composed_residualsOf c)
  | describe c => exact hcomposed (Act.composed_describe c)
  | prepare first c => exact hcomposed (.change (·.prepare first c))
  | restore c => exact hcomposed (.change (·.restore c))
  | correct s => exact hcomposed (Act.composed_correct s)
  | residuals s => exact hcomposed (Act.composed_residuals s)
  | solve s limit => exact Act.called_solve s limit
  | solveAnnounced s => exact hcomposed (Act.composed_solveAnnounced s)
  | log s level => exact Act.called_log s level
  | newConfig cfg => exact hcomposed (Act.composed_newConfig cfg)
  | copyAmbient => exact hcomposed (Act.composed_read fun a => Act.composed_newConfig a.ambient)
  | setAmbient k => exact hcomposed (.change fun a => { a with ambient := a.config k })
  | modifyConfig k f => exact hcomposed (.change fun a => a.setConfig k (f (a.config k)))
  | newSystem config => exact hcomposed (Act.composed_newSystem config)
  | useConfig s k => exact hcomposed (.change fun a => a.setSystem s { a.system s with config := k })

/-- Why an operation fails before its work where a journal records it: its call cannot be written. -/
def refused? (op : Operation α) (j : Journal α) : Option (Fault α) :=
  if j.admits .system .debug then op.refusal? j.room else none

variable {op : Operation α} {st : Session α}

theorem apply_of_refused {fault : Fault α} (h : op.refused? st.journal = some fault) :
    op.act.2 st = .error fault st := by
  unfold refused? at h
  split at h
  case isTrue hadmits => exact op.called.apply_of_refused hadmits h
  case isFalse => cases h

theorem after_of_refused {fault : Fault α} (h : op.refused? st.journal = some fault) : op.after st = st := by
  unfold after Act.after
  rw [apply_of_refused h]

/-- An operation that neither of two journals refuses answers and does the same in both. -/
theorem same_answer {a : Assembly α} {j j' : Journal α} (hj : op.refused? j = none) (hj' : op.refused? j' = none) :
    op.act.2.answer ⟨a, j⟩ = op.act.2.answer ⟨a, j'⟩ ∧ (op.after ⟨a, j⟩).assembly = (op.after ⟨a, j'⟩).assembly := by
  have hnone {k : Journal α} (hk : op.refused? k = none) (hadmits : k.admits .system .debug) :
      op.refusal? k.room = none := by
    unfold refused? at hk
    rwa [if_pos hadmits] at hk
  exact op.called.same_answer a (hnone hj) (hnone hj')

theorem answer_of_refused {fault : Fault α} (h : op.refused? st.journal = some fault) :
    op.act.2.answer st = .error fault := by
  unfold Act.answer
  rw [apply_of_refused h]

end Operation

end Linkage
