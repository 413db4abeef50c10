import Linkage.Proofs.Composition
import Linkage.Proofs.Sharing
import Linkage.Proofs.Sparing
import Mathlib.Data.List.DropRight

/-!
# Linkage.Proofs.Alteration — what an operation does to one constraint

A constraint is made with its targets, keeps its identifier and its nodes for good, and has its targets replaced by the
assignments to it and by nothing else (`Alters`).  The states of nodes that it saves are those that it last had to save,
at the beginning of a run or when it was prepared by itself (`Operation.saved_after`).  So whatever holds of the targets or
the saved states of all constraints after any run of operations needs one look at these few cases only.
-/

namespace Linkage

variable {α : Type}

namespace Assembly

variable [Scalar α]

/-! ### States to save -/

/-- The states of the nodes of a constraint, where the boosts of the nodes of a list have been cleared. -/
def states (a : Assembly α) (c : ConstraintId) (cleared : List NodeId) : List (Saved α) :=
  (a.constraint c).shape.nodes.map fun n =>
    ⟨n, (a.node n).x, (a.node n).y, (if n ∈ cleared then (a.node n).clearBoost else a.node n).boost⟩

/-- The constraints of a list that come before the last place of one of them. -/
def earlier (c : ConstraintId) (cs : List ConstraintId) : List ConstraintId := (cs.rdropWhile (· != c)).dropLast

theorem earlier_concat (c d : ConstraintId) (cs : List ConstraintId) :
    earlier c (cs ++ [d]) = if d = c then cs else earlier c cs := by
  unfold earlier
  rw [List.rdropWhile_concat]
  by_cases hdc : d = c
  · simp [hdc]
  · simp [hdc]

/-- What a constraint saves when its system is prepared: its nodes are where they were, and what the constraints before it
join has been cleared. -/
theorem saved_prepareAll (a : Assembly α) (cs : List ConstraintId) (c : ConstraintId) :
    ((a.prepareAll true cs).constraint c).saved =
      if c ∈ cs then a.states c (a.nodesOf (earlier c cs)) else (a.constraint c).saved := by
  induction cs using List.reverseRecOn with
  | nil => rfl
  | append_singleton rest d ih =>
    rw [prepareAll_concat, saved_prepare, earlier_concat]
    by_cases hdc : d = c
    · subst hdc
      have hplan := (relaxed_prepareAll true rest a).toSamePlan
      rw [if_pos rfl, if_pos rfl, if_pos (List.mem_append_right _ (List.mem_singleton_self d)), hplan.shape]
      refine List.map_congr_left fun n _ => ?_
      have hplaced := (prepareAll_saves a rest).1 n
      rw [hplaced.1, hplaced.2, node_prepareAll]
    · have hmem : c ∈ rest ++ [d] ↔ c ∈ rest := by simp [Ne.symm hdc]
      rw [if_neg hdc, if_neg hdc, ih, if_congr hmem rfl rfl]

theorem constraint_prepareAll (a : Assembly α) (cs : List ConstraintId) (c : ConstraintId) :
    (a.prepareAll true cs).constraint c = { a.constraint c with
      saved := if c ∈ cs then a.states c (a.nodesOf (earlier c cs)) else (a.constraint c).saved } := by
  rw [(relaxed_prepareAll true cs a).constraint, saved_prepareAll]

end Assembly

open Assembly (Corrected earlier earlier_concat states)

namespace Operation

variable [Scalar α]

/-- What a constraint saves in the course of an operation that does its work, if it saves anything: a run that may sweep
makes all the constraints of the system save their nodes before the first sweep. -/
def saves (c : ConstraintId) (a : Assembly α) : Operation α → Option (List (Saved α))
  | .prepare true d => if d = c then some (a.states c []) else none
  | .correct s | .solve s _ | .solveAnnounced s =>
    if 1 ≤ (a.config (a.system s).config).cap ∧ c ∈ (a.system s).constraints
    then some (a.states c (a.nodesOf (earlier c (a.system s).constraints))) else none
  | _ => none

/-- The constraint that an operation makes, before it is registered. -/
def draft (node : NodeId → Node α) : Operation α → Option (Constraint α)
  | .newPair first second o | .pair _ first second o => (Constraint.pair node first second o).toOption
  | .newTriple apex ray arm o | .triple _ apex ray arm o => (Constraint.triple node apex ray arm o).toOption
  | _ => none

/-- What becomes of a constraint in the course of an operation. -/
inductive Alters (op : Operation α) (c : ConstraintId) (a b : Assembly α) : Prop where
  /-- It is what it was, perhaps with an owner now, and has saved what it had to. -/
  | kept (owner : Option SystemId) (same : b.constraint c = { a.constraint c with
      owner := owner, saved := (op.saves c a).getD (a.constraint c).saved })
  /-- It is what it was, since the report of a run is refused. -/
  | refused (s : SystemId) (limit : Option Int) (isThis : op = .solve s limit) (same : b.constraint c = a.constraint c)
  /-- It is made. -/
  | made (k : Constraint α) (owner : Option SystemId) (unmade : a.constraint c = default)
      (drafted : op.draft a.node = some k) (saveless : op.saves c a = none)
      (same : b.constraint c = { k with owner := owner })
  /-- Its wanted length is assigned; only pairs have one. -/
  | lengthAssigned (spec : Spec α) (t? : Option (Target α)) (isThis : op = .setLengthTarget c spec)
      (isPair : (a.constraint c).shape.kind = .pair) (settled : spec.settle (a.length c) = .ok t?)
      (same : b.constraint c = { a.constraint c with lengthTarget := t? })
  /-- Its wanted angle is assigned. -/
  | angleAssigned (spec : Spec α) (t? : Option (Target α)) (isThis : op = .setAngleTarget c spec)
      (settled : spec.settle (.ok (a.angle c)) = .ok t?)
      (same : b.constraint c = { a.constraint c with angleTarget := t? })

section Cases

variable {op : Operation α} {c : ConstraintId} {a b : Assembly α}

theorem alters_of_eq (hsaves : op.saves c a = none) (h : b.constraint c = a.constraint c) : op.Alters c a b :=
  .kept (a.constraint c).owner (by rw [h, hsaves]; rfl)

theorem alters_of_saved (h : b.constraint c = { a.constraint c with
    saved := (op.saves c a).getD (a.constraint c).saved }) : op.Alters c a b :=
  .kept (a.constraint c).owner h

variable {k : Constraint α}

theorem alters_push (hdraft : op.draft a.node = some k) (hsaves : op.saves c a = none) :
    op.Alters c a { a with constraints := a.constraints.push k } := by
  by_cases hc : c = a.constraints.size
  · refine .made k k.owner (Table.get_of_size_le (Nat.le_of_eq hc.symm)) hdraft hsaves ?_
    rw [Assembly.constraint_push, if_pos hc]
  · refine alters_of_eq hsaves ?_
    rw [Assembly.constraint_push, if_neg hc]

theorem alters_push_join (hdraft : op.draft a.node = some k) (hsaves : op.saves c a = none) (s : SystemId) :
    op.Alters c a (({ a with constraints := a.constraints.push k } : Assembly α).join s a.constraints.size) := by
  by_cases hc : a.constraints.size = c
  · refine .made k (some s) (Table.get_of_size_le (Nat.le_of_eq hc)) hdraft hsaves ?_
    rw [Assembly.constraint_join, if_pos hc, Assembly.constraint_push, if_pos rfl]
  · refine alters_of_eq hsaves ?_
    rw [Assembly.constraint_join, if_neg hc, Assembly.constraint_push, if_neg (Ne.symm hc)]

end Cases

/-- What is made has nothing saved. -/
theorem saved_of_draft {op : Operation α} {node : NodeId → Node α} {k : Constraint α} (h : op.draft node = some k) :
    k.saved = [] := by
  unfold draft at h
  split at h
  · obtain ⟨-, _, _, _, -, -, -, rfl⟩ := Constraint.exists_of_pair (Act.eq_ok_of_toOption h)
    rfl
  · obtain ⟨-, _, _, _, -, -, -, rfl⟩ := Constraint.exists_of_pair (Act.eq_ok_of_toOption h)
    rfl
  · obtain ⟨-, _, -, rfl⟩ := Constraint.exists_of_triple (Act.eq_ok_of_toOption h)
    rfl
  · obtain ⟨-, _, -, rfl⟩ := Constraint.exists_of_triple (Act.eq_ok_of_toOption h)
    rfl
  · cases h

end Operation

namespace Act

variable [Scalar α] {a : Assembly α}

/-! ### Runs -/

/-- A run rewrites what the constraints of its system saved, if it may sweep at all, and nothing else of constraints. -/
theorem runs_correct_saves (s : SystemId) (a : Assembly α) : Runs (correct s) a fun _ b =>
    b.constraint = fun c => { a.constraint c with
      saved := ((Operation.correct s).saves c a).getD (a.constraint c).saved } := by
  have hsaves (c : ConstraintId) : (Operation.correct s).saves c a =
      if 1 ≤ (a.config (a.system s).config).cap ∧ c ∈ (a.system s).constraints
      then some (a.states c (a.nodesOf (earlier c (a.system s).constraints))) else none := rfl
  refine runs_correct_of_sweeps ?_
  have hrestored (b : Assembly α) : (b.restoreAll (b.system s).constraints).constraint = b.constraint :=
    funext (Assembly.constraint_restoreAll _ b)
  simp only [hrestored, and_self]
  -- rolling back rewrites nodes only, so that what a run has saved is what its first sweep prepared
  generalize hcap : (a.config (a.system s).config).cap = cap
  cases cap with
  | zero =>
    refine runs_pure (funext fun c => ?_)
    rw [hsaves, hcap, if_neg fun h => absurd h.1 (Nat.not_succ_le_zero 0)]
    rfl
  | succ left =>
    refine runs_sweepsFrom.mono fun _ b hb => funext fun c => ?_
    rw [hb.constraint, Assembly.constraint_prepareAll, hsaves, hcap]
    by_cases hc : c ∈ (a.system s).constraints
    · simp [hc]
    · simp [hc]

/-- The constraints after a run are those after it is measured: measuring does not change them. -/
theorem runs_measured_of_correct {s : SystemId} {k : ConstraintId → Constraint α} {β : Type}
    {f : Nat → List (Residual α) → Assembly α → β} (h : Runs (correct s) a fun _ b => b.constraint = k) :
    Runs (do
      let iterations ← correct s
      let ranked ← residuals s
      let a ← assembly
      return f iterations ranked a) a fun _ b => b.constraint = k := by
  refine runs_bind (h.mono fun r b hb => ?_)
  cases r with
  | error fault => exact hb
  | ok iterations =>
    rw [then_ok]
    have hmeasure : Keeps (Corrected []) (residuals (α := α) s) := keeps_residuals s
    refine runs_bind ((hmeasure b).mono fun r' b' hbb' => ?_)
    have hb' : b'.constraint = k := by
      rw [← hb]
      exact funext hbb'.constraint
    cases r' with
    | error fault => exact hb'
    | ok ranked =>
      rw [then_ok]
      exact runs_read (runs_pure hb')

theorem constraint_solve {st : Session α} {s : SystemId} {limit : Option Int} {k : ConstraintId → Constraint α}
    (hrefused : (Operation.solve s limit).refused? st.journal = none)
    (h : Runs (correct s) st.assembly fun _ b => b.constraint = k) :
    ((solve s limit).after st).assembly.constraint = k := by
  unfold solve
  exact Runs.at_traced (Q := fun _ b => b.constraint = k) hrefused (runs_measured_of_correct h)

theorem runs_solveAnnounced_of_correct {s : SystemId} {k : ConstraintId → Constraint α}
    (h : Runs (correct s) a fun _ b => b.constraint = k) : Runs (solveAnnounced s) a fun _ b => b.constraint = k := by
  refine runs_read (runs_after_report (runs_bind ((runs_traced (runs_measured_of_correct h)).mono fun r b hb => ?_)))
  cases r with
  | error fault => exact hb
  | ok report =>
    rw [then_ok]
    exact runs_after_report (runs_pure hb)

end Act

open Act

namespace Operation

variable [Scalar α]

/-! ### Every operation -/

theorem runs_alters_of_corrected {op : Operation α} {β : Type} {p : Act α β} {ns : List NodeId} {a : Assembly α}
    (h : Runs p a fun _ b => Corrected ns a b) (hsaves : ∀ c, op.saves c a = none) :
    Runs p a fun _ b => ∀ c, op.Alters c a b :=
  h.mono fun _ _ hab c => alters_of_eq (hsaves c) (hab.constraint c)

/-- What an operation has made, it registers if it may. -/
theorem runs_add_alters (op : Operation α) {a : Assembly α} {k : Constraint α} (hdraft : op.draft a.node = some k)
    (hsaves : ∀ c, op.saves c a = none) (s : SystemId) :
    Runs (Act.add s a.constraints.size) { a with constraints := a.constraints.push k } fun _ b =>
      ∀ c, op.Alters c a b :=
  runs_add (fun _ _ c => alters_push hdraft (hsaves c)) fun _ c => alters_push_join hdraft (hsaves c) s

theorem runs_setLengthTarget_alters (d : ConstraintId) (spec : Spec α) (a : Assembly α) :
    Runs (Act.setLengthTarget d spec) a fun _ b => ∀ c, (Operation.setLengthTarget d spec).Alters c a b := by
  refine runs_read ?_
  dsimp only
  split
  case h_1 =>
    have hnothing : ∀ c, (setLengthTarget d spec).Alters c a a := fun c => alters_of_eq rfl rfl
    exact runs_throw hnothing
  case h_2 hshape =>
    refine runs_bind (runs_ofExcept ?_)
    cases hsettle : spec.settle (a.length d) with
    | error fault => exact fun c => alters_of_eq rfl rfl
    | ok t? =>
      rw [then_ok]
      refine runs_change fun c => ?_
      by_cases hdc : d = c
      · subst hdc
        refine .lengthAssigned spec t? rfl (by rw [hshape]; rfl) hsettle ?_
        rw [Assembly.constraint_setConstraint, if_pos rfl]
      · refine alters_of_eq rfl ?_
        rw [Assembly.constraint_setConstraint, if_neg hdc]

theorem runs_setAngleTarget_alters (d : ConstraintId) (spec : Spec α) (a : Assembly α) :
    Runs (Act.setAngleTarget d spec) a fun _ b => ∀ c, (Operation.setAngleTarget d spec).Alters c a b := by
  refine runs_read (runs_bind (runs_ofExcept ?_))
  cases hsettle : spec.settle (.ok (a.angle d)) with
  | error fault => exact fun c => alters_of_eq rfl rfl
  | ok t? =>
    rw [then_ok]
    refine runs_change fun c => ?_
    by_cases hdc : d = c
    · subst hdc
      refine .angleAssigned spec t? rfl hsettle ?_
      rw [Assembly.constraint_setConstraint, if_pos rfl]
    · refine alters_of_eq rfl ?_
      rw [Assembly.constraint_setConstraint, if_neg hdc]

/-- Preparing a constraint by itself makes it save its nodes, if it is the first time in a run. -/
theorem alters_prepare (first : Bool) (d c : ConstraintId) (a : Assembly α) :
    (Operation.prepare first d).Alters c a (a.prepare first d) := by
  cases first with
  | false => exact alters_of_eq rfl ((Assembly.corrected_clearBoosts (List.Subset.refl _) a).constraint c)
  | true =>
    refine alters_of_saved ?_
    have hprepared : a.prepare true d = a.prepareAll true [d] := rfl
    have hsaves : (Operation.prepare true d).saves c a = if d = c then some (a.states c []) else none := rfl
    rw [hprepared, Assembly.constraint_prepareAll, hsaves]
    by_cases hdc : d = c
    · have hfirst : earlier c [d] = [] := by rw [hdc]; exact (earlier_concat c c []).trans (if_pos rfl)
      rw [if_pos hdc, if_pos (List.mem_singleton.mpr hdc.symm), hfirst]
      rfl
    · rw [if_neg hdc, if_neg fun h => hdc (List.mem_singleton.mp h).symm]
      rfl

/-- What an operation does to the constraints, one by one. -/
theorem runs_alters (op : Operation α) (a : Assembly α) : Runs op.act.2 a fun _ b => ∀ c, op.Alters c a b := by
  -- most operations rewrite no constraint, and the three facts here serve one kind of them each
  have heq {op : Operation α} {b : Assembly α} (h : b.constraints = a.constraints)
      (hsaves : ∀ c, op.saves c a = none) (c : ConstraintId) : op.Alters c a b := by
    refine alters_of_eq (hsaves c) ?_
    unfold Assembly.constraint
    rw [h]
  have hchange {op : Operation α} (g : Assembly α → Assembly α) (h : ∀ c, op.Alters c a (g a)) :
      Runs (change g) a fun _ b => ∀ c, op.Alters c a b := runs_change h
  have hread {β : Type} {p : Act α β} {op : Operation α} (h : Keeps (Corrected []) p)
      (hsaves : ∀ c, op.saves c a = none) : Runs p a fun _ b => ∀ c, op.Alters c a b :=
    runs_alters_of_corrected (h a) hsaves
  cases op with
  | newNode x y o => exact runs_newNode (heq rfl fun _ => rfl)
  | modifyNode n f => exact hchange (fun a => a.setNode n (f (a.node n))) (heq rfl fun _ => rfl)
  | addNode s n => exact runs_addNode (heq (Assembly.sameObjects_enlist a s n).constraints fun _ => rfl)
  | node s x y o =>
    exact runs_node (heq (Assembly.sameObjects_enlist { a with nodes := a.nodes.push (o.node x y) } s _).constraints
      fun _ => rfl)
  | newPair first second o =>
    refine runs_newPair (fun _ _ => heq rfl fun _ => rfl) fun k hk c => alters_push ?_ rfl
    exact congrArg Except.toOption hk
  | newTriple apex ray arm o =>
    refine runs_newTriple (fun _ _ => heq rfl fun _ => rfl) fun k hk c => alters_push ?_ rfl
    exact congrArg Except.toOption hk
  | add s d =>
    refine runs_add (fun _ _ => heq rfl fun _ => rfl) fun _ c => ?_
    by_cases hdc : d = c
    · refine .kept (some s) ?_
      rw [Assembly.constraint_join, if_pos hdc, hdc]
      rfl
    · refine alters_of_eq rfl ?_
      rw [Assembly.constraint_join, if_neg hdc]
  | pair s first second o =>
    -- a pair that is refused or invalid is not made, and one that is made may still fail to be registered
    refine runs_pair (fun _ _ _ => heq rfl fun _ => rfl)
      (runs_bind (runs_newPair (fun _ _ => heq rfl fun _ => rfl) fun k hk => ?_))
    exact runs_add_alters (.pair s first second o) (congrArg Except.toOption hk) (fun _ => rfl) s
  | triple s apex ray arm o =>
    refine runs_triple (fun _ _ _ => heq rfl fun _ => rfl)
      (runs_bind (runs_newTriple (fun _ _ => heq rfl fun _ => rfl) fun k hk => ?_))
    exact runs_add_alters (.triple s apex ray arm o) (congrArg Except.toOption hk) (fun _ => rfl) s
  | setLengthTarget d spec => exact runs_setLengthTarget_alters d spec a
  | setAngleTarget d spec => exact runs_setAngleTarget_alters d spec a
  | make recipe =>
    refine (runs_make recipe a).mono fun r b h => ?_
    obtain ⟨k, -, hk⟩ := h
    rw [hk.after]
    exact heq rfl fun _ => rfl
  | evaluate d t =>
    exact (runs_evaluate a d t).mono fun _ _ h c => alters_of_eq rfl (h.1.constraint c)
  | targetLength d => exact hread (keeps_targetLength d) fun _ => rfl
  | targetAngle d => exact hread (keeps_targetAngle d) fun _ => rfl
  | resolve d ref => exact runs_resolve (heq rfl fun _ => rfl)
  | byId? s id => exact runs_byId? (heq rfl fun _ => rfl)
  | correctOne d => exact runs_alters_of_corrected (runs_correctOne (List.Subset.refl _)) fun _ => rfl
  | residualsOf d => exact hread (keeps_residualsOf d) fun _ => rfl
  | describe d => exact hread (keeps_describe d) fun _ => rfl
  | prepare first d => exact hchange (·.prepare first d) fun c => alters_prepare first d c a
  | restore d => exact hchange (·.restore d) fun c => alters_of_eq rfl (Assembly.constraint_restore a d c)
  | correct s => exact (runs_correct_saves s a).mono fun _ _ h c => alters_of_saved (congrFun h c)
  | residuals s => exact hread (keeps_residuals s) fun _ => rfl
  -- a call that cannot be written fails before it runs, and then saves nothing, unlike one that fails later
  | solve s limit =>
    exact runs_traced_given (fun _ _ _ c => .refused s limit rfl rfl)
      ((runs_measured_of_correct (runs_correct_saves s a)).mono fun _ _ h c => alters_of_saved (congrFun h c))
  | solveAnnounced s =>
    exact (runs_solveAnnounced_of_correct (runs_correct_saves s a)).mono fun _ _ h c =>
      alters_of_saved (congrFun h c)
  | log s level => exact hread (keeps_log s level) fun _ => rfl
  | newConfig cfg => exact runs_newConfig (heq rfl fun _ => rfl)
  | copyAmbient => exact runs_copyAmbient (heq rfl fun _ => rfl)
  | setAmbient k => exact hchange (fun a => { a with ambient := a.config k }) (heq rfl fun _ => rfl)
  | modifyConfig k f => exact hchange (fun a => a.setConfig k (f (a.config k))) (heq rfl fun _ => rfl)
  | newSystem config =>
    cases config with
    | some k => exact runs_newSystem_given (heq rfl fun _ => rfl)
    | none => exact runs_newSystem_own (heq rfl fun _ => rfl)
  | useConfig s k => exact hchange (fun a => a.setSystem s { a.system s with config := k }) (heq rfl fun _ => rfl)

/-- What an operation does to a constraint of a session. -/
theorem alters (op : Operation α) (st : Session α) (c : ConstraintId) :
    op.Alters c st.assembly (op.after st).assembly := (op.runs_alters st.assembly).at_session c

/-- What a constraint saves in the course of an operation, unless this is refused. -/
def savesIn (c : ConstraintId) (st : Session α) (op : Operation α) : Option (List (Saved α)) :=
  match op.refused? st.journal with
  | some _ => none
  | none => op.saves c st.assembly

/-- Whatever an operation does to a constraint, what this saved is what it saves now or had saved before. -/
theorem saved_after (op : Operation α) (st : Session α) (c : ConstraintId) :
    ((op.after st).assembly.constraint c).saved = (op.savesIn c st).getD (st.assembly.constraint c).saved := by
  unfold savesIn
  cases hrefused : op.refused? st.journal with
  | some fault =>
    rw [after_of_refused hrefused]
    rfl
  | none =>
    cases op.alters st c with
    | kept owner same => rw [same]
    | refused s limit isThis =>
      subst isThis
      exact congrArg Constraint.saved (congrFun (constraint_solve hrefused (runs_correct_saves s st.assembly)) c)
    | made k owner unmade drafted saveless same =>
      have hdraft : k.saved = [] := saved_of_draft drafted
      rw [same, saveless, unmade]
      exact hdraft
    | lengthAssigned spec t? isThis isPair settled same =>
      rw [same, isThis]
      rfl
    | angleAssigned spec t? isThis settled same =>
      rw [same, isThis]
      rfl

end Operation

end Linkage
