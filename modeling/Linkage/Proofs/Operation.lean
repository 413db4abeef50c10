import Linkage.Proofs.Consultation
import Linkage.System.Registry
import Linkage.System.Report
import Linkage.System.Settings
import Linkage.Target.Factory

/-!
# Linkage.Proofs.Operation — everything that can be done in a session

An `Operation` is one call of the library with its arguments, and `Operation.act` the action that it is.  A session is
reached by a list of operations that are performed one after the other, each whether or not the ones before it failed
(`run`).  `gathered` collects, along a run, what the operations contribute to something, in order.
-/

namespace Linkage

variable {α : Type} [Scalar α]

/-- A factory of computed targets, with its arguments. -/
inductive Recipe (α : Type) where
  | lengthMin (least : α)
  | lengthMax (most : α)
  | lengthRange (least most : α)
  | lengthFrom (ref : String) (scale : Option (Option α))
  | angleMin (least : α)
  | angleMax (most : α)
  | angleRange (least most : α)
  | angleFrom (ref : String) (offset : Option α)
  | anglePosFrom (ref : String)
  | angleNegFrom (ref : String)
  | angleAcuteFrom (ref : String)
  | angleObtuseFrom (ref : String)
  | angleRangeFrom (ref : String) (least most : α)
  | angleDelta (first second : String) (scale : Option α)
  | angleInclude (ref : String) (offset : α)
  | angleInclRange (ref : String) (least most : α)

/-- The call of a factory. -/
def Recipe.make : Recipe α → Act α (Combinator α)
  | .lengthMin least => Act.lengthMin least
  | .lengthMax most => Act.lengthMax most
  | .lengthRange least most => Act.lengthRange least most
  | .lengthFrom ref scale => Act.lengthFrom ref scale
  | .angleMin least => Act.angleMin least
  | .angleMax most => Act.angleMax most
  | .angleRange least most => Act.angleRange least most
  | .angleFrom ref offset => Act.angleFrom ref offset
  | .anglePosFrom ref => Act.anglePosFrom ref
  | .angleNegFrom ref => Act.angleNegFrom ref
  | .angleAcuteFrom ref => Act.angleAcuteFrom ref
  | .angleObtuseFrom ref => Act.angleObtuseFrom ref
  | .angleRangeFrom ref least most => Act.angleRangeFrom ref least most
  | .angleDelta first second scale => Act.angleDelta first second scale
  | .angleInclude ref offset => Act.angleInclude ref offset
  | .angleInclRange ref least most => Act.angleInclRange ref least most

/-- One call of the library, with its arguments. -/
inductive Operation (α : Type) where
  | newNode (x y : α) (o : NodeOptions α)
  | modifyNode (n : NodeId) (f : Node α → Node α)
  | addNode (s : SystemId) (n : NodeId)
  | node (s : SystemId) (x y : α) (o : NodeOptions α)
  | newPair (first second : NodeId) (o : PairOptions α)
  | newTriple (apex ray arm : NodeId) (o : TripleOptions α)
  | add (s : SystemId) (c : ConstraintId)
  | pair (s : SystemId) (first second : NodeId) (o : PairOptions α)
  | triple (s : SystemId) (apex ray arm : NodeId) (o : TripleOptions α)
  | setLengthTarget (c : ConstraintId) (spec : Spec α)
  | setAngleTarget (c : ConstraintId) (spec : Spec α)
  | make (recipe : Recipe α)
  | evaluate (c : ConstraintId) (t : Target α)
  | targetLength (c : ConstraintId)
  | targetAngle (c : ConstraintId)
  | resolve (c : ConstraintId) (ref : String)
  | byId? (s : SystemId) (id : Option String)
  | correctOne (c : ConstraintId)
  | residualsOf (c : ConstraintId)
  | describe (c : ConstraintId)
  | prepare (first : Bool) (c : ConstraintId)
  | restore (c : ConstraintId)
  | correct (s : SystemId)
  | residuals (s : SystemId)
  | solve (s : SystemId) (limit : Option Int)
  | solveAnnounced (s : SystemId)
  | log (s : SystemId) (level : Option Level)
  | newConfig (cfg : Config α)
  | copyAmbient
  | setAmbient (k : ConfigId)
  | modifyConfig (k : ConfigId) (f : Config α → Config α)
  | newSystem (config : Option ConfigId)
  | useConfig (s : SystemId) (k : ConfigId)

namespace Operation

/-- The action that an operation is, with the type of its result. -/
def act : Operation α → (β : Type) × Act α β
  | .newNode x y o => ⟨_, Act.newNode x y o⟩
  | .modifyNode n f => ⟨_, Act.modifyNode n f⟩
  | .addNode s n => ⟨_, Act.addNode s n⟩
  | .node s x y o => ⟨_, Act.node s x y o⟩
  | .newPair first second o => ⟨_, Act.newPair first second o⟩
  | .newTriple apex ray arm o => ⟨_, Act.newTriple apex ray arm o⟩
  | .add s c => ⟨_, Act.add s c⟩
  | .pair s first second o => ⟨_, Act.pair s first second o⟩
  | .triple s apex ray arm o => ⟨_, Act.triple s apex ray arm o⟩
  | .setLengthTarget c spec => ⟨_, Act.setLengthTarget c spec⟩
  | .setAngleTarget c spec => ⟨_, Act.setAngleTarget c spec⟩
  | .make recipe => ⟨_, recipe.make⟩
  | .evaluate c t => ⟨_, Act.evaluate c t⟩
  | .targetLength c => ⟨_, Act.targetLength c⟩
  | .targetAngle c => ⟨_, Act.targetAngle c⟩
  | .resolve c ref => ⟨_, Act.resolve c ref⟩
  | .byId? s id => ⟨_, Act.byId? s id⟩
  | .correctOne c => ⟨_, Act.correctOne c⟩
  | .residualsOf c => ⟨_, Act.residualsOf c⟩
  | .describe c => ⟨_, Act.describe c⟩
  | .prepare first c => ⟨_, Act.change fun a => a.prepare first c⟩
  | .restore c => ⟨_, Act.change fun a => a.restore c⟩
  | .correct s => ⟨_, Act.correct s⟩
  | .residuals s => ⟨_, Act.residuals s⟩
  | .solve s limit => ⟨_, Act.solve s limit⟩
  | .solveAnnounced s => ⟨_, Act.solveAnnounced s⟩
  | .log s level => ⟨_, Act.log s level⟩
  | .newConfig cfg => ⟨_, Act.newConfig cfg⟩
  | .copyAmbient => ⟨_, Act.copyAmbient⟩
  | .setAmbient k => ⟨_, Act.setAmbient k⟩
  | .modifyConfig k f => ⟨_, Act.modifyConfig k f⟩
  | .newSystem config => ⟨_, Act.newSystem config⟩
  | .useConfig s k => ⟨_, Act.useConfig s k⟩

/-- The session that an operation leaves, whether it fails or not. -/
def after (op : Operation α) (st : Session α) : Session α := op.act.2.after st

end Operation

/-! ### What operations hand over -/

/-- The references of a target as a user gives it. -/
def Spec.references : Spec α → List Reference
  | .target t => t.references
  | _ => []

/-- The references of the targets that an operation is given. -/
def Operation.references : Operation α → List Reference
  | .newPair _ _ o | .pair _ _ _ o => (o.length.getD .absent).references ++ (o.angle.getD .absent).references
  | .newTriple _ _ _ o | .triple _ _ _ _ o => (o.angle.getD .absent).references
  | .setLengthTarget _ spec | .setAngleTarget _ spec => spec.references
  | .evaluate _ t => t.references
  | _ => []

/-- Only a computed target that is given as such brings references. -/
theorem Spec.references_coerce {spec : Spec α} {t : Target α} (ht : spec.coerce = .ok (.target t)) :
    t.references ⊆ spec.references := by
  cases spec with
  | absent => exact nomatch ht
  | target t' => cases ht; exact List.Subset.refl _
  | current => exact nomatch ht
  | number n =>
    have hnumber (r : Except (Fault α) α) (hr : (fun x => Coerced.target (.fixed x)) <$> r = .ok (.target t)) :
        t.references ⊆ (Spec.number n).references := by
      cases r with
      | error e => exact nomatch hr
      | ok x => cases hr; exact List.nil_subset _
    cases n with
    | flag b => exact nomatch ht
    | int n => exact hnumber _ ht
    | float x => exact hnumber _ ht
  | marker word =>
    unfold coerce at ht
    dsimp only at ht
    split at ht
    · exact nomatch ht
    · exact nomatch ht
  | callable name read => cases ht; exact List.nil_subset _
  | unsupported shown type => exact nomatch ht

/-- A stored target follows the references of its spec. -/
theorem Spec.references_settle {spec : Spec α} {now : Except (Fault α) α} {t? : Option (Target α)}
    (h : spec.settle now = .ok t?) : Target.referencesOf t? ⊆ spec.references := by
  unfold settle at h
  cases hspec : spec.coerce with
  | error e =>
    rw [hspec] at h
    exact nomatch h
  | ok coerced =>
    rw [hspec] at h
    cases coerced with
    | absent => cases h; exact List.nil_subset _
    | current =>
      cases now with
      | error e => exact nomatch h
      | ok x => cases h; exact List.nil_subset _
    | target t => cases h; exact references_coerce hspec

/-! ### Runs -/

/-- The session that operations lead to, one after the other. -/
def run (ops : List (Operation α)) (st : Session α) : Session α := ops.foldl (fun st op => op.after st) st

theorem run_append (ops later : List (Operation α)) (st : Session α) : run (ops ++ later) st = run later (run ops st) :=
  List.foldl_append

theorem run_concat (ops : List (Operation α)) (op : Operation α) (st : Session α) :
    run (ops ++ [op]) st = op.after (run ops st) := run_append ops [op] st

/-- What the operations of a run contribute, in order, each in the session where it is performed. -/
def gathered {β : Type} (contribution : Session α → Operation α → List β) : List (Operation α) → Session α → List β
  | [], _ => []
  | op :: rest, st => contribution st op ++ gathered contribution rest (op.after st)

theorem gathered_append {β : Type} (contribution : Session α → Operation α → List β) (ops later : List (Operation α))
    (st : Session α) :
    gathered contribution (ops ++ later) st = gathered contribution ops st ++ gathered contribution later (run ops st) := by
  induction ops generalizing st with
  | nil => rfl
  | cons first rest ih => exact (congrArg (_ ++ ·) (ih _)).trans (List.append_assoc ..).symm

theorem gathered_concat {β : Type} (contribution : Session α → Operation α → List β) (ops : List (Operation α))
    (op : Operation α) (st : Session α) :
    gathered contribution (ops ++ [op]) st = gathered contribution ops st ++ contribution (run ops st) op := by
  rw [gathered_append]
  exact congrArg (_ ++ ·) (List.append_nil _)

end Linkage
