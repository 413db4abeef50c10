import Linkage.Proofs.Alteration

/-!
# Linkage.Proofs.Recollection — a run without a sweep puts back what an earlier one saved

Constraints save the states of their nodes before the first sweep of a run, and a run that does not meet them all has
them put these states back.  If the cap on sweeps is below one there is no first sweep, so what is put back was saved by
the last run that did sweep, or when a constraint was last prepared by itself, however long ago that was and whatever
has become of the nodes since.  `correct_recalls` says so of any history: the run answers zero, and it leaves each node
as `recollection` has it, the last state of the node that the constraints of the system have on record.
-/

namespace Linkage

variable {α : Type}

/-! ### Putting states back -/

/-- The last state of a node in a list of saved states. -/
def lastState? (n : NodeId) (saved : List (Saved α)) : Option (Saved α) := (saved.filter fun v => v.node == n).getLast?

theorem lastState?_concat (n : NodeId) (saved : List (Saved α)) (v : Saved α) :
    lastState? n (saved ++ [v]) = if v.node = n then some v else lastState? n saved := by
  unfold lastState?
  rw [List.filter_append]
  by_cases hv : v.node = n
  · simp [hv]
  · simp [hv]

/-- The node as it was in a saved state, if there is one. -/
def Node.recall (u : Node α) : Option (Saved α) → Node α
  | none => u
  | some v => { u with x := v.x, y := v.y, boost := v.boost }

/-- Recalling a state does nothing exactly if it is the state that the node is in. -/
theorem Node.recall_eq_self_iff {u : Node α} {v? : Option (Saved α)} :
    u.recall v? = u ↔ ∀ v, v? = some v → v.x = u.x ∧ v.y = u.y ∧ v.boost = u.boost := by
  cases v? with
  | none =>
    constructor
    · rintro - v ⟨⟩
    · intro _
      rfl
  | some v =>
    constructor
    · intro h w hw
      cases hw
      exact ⟨congrArg Node.x h, congrArg Node.y h, congrArg Node.boost h⟩
    · intro h
      obtain ⟨hx, hy, hboost⟩ := h v rfl
      show ({ u with x := v.x, y := v.y, boost := v.boost } : Node α) = u
      rw [hx, hy, hboost]

namespace Assembly

variable [Scalar α]

/-- Puts nodes back to saved states, one after the other. -/
def replay (a : Assembly α) (saved : List (Saved α)) : Assembly α :=
  saved.foldl (fun a s => a.setNode s.node { a.node s.node with x := s.x, y := s.y, boost := s.boost }) a

/-- For each node the last of its states decides. -/
theorem node_replay (a : Assembly α) (saved : List (Saved α)) (n : NodeId) :
    (a.replay saved).node n = (a.node n).recall (lastState? n saved) := by
  unfold replay
  induction saved using List.reverseRecOn with
  | nil => rfl
  | append_singleton rest v ih =>
    rw [List.foldl_concat, node_setNode, lastState?_concat]
    by_cases hv : v.node = n
    · subst hv
      rw [if_pos rfl, if_pos rfl, ih]
      -- the states before it leave mass, kind and name alone
      cases lastState? v.node rest with
      | none => rfl
      | some w => rfl
    · rw [if_neg hv, if_neg hv, ih]

theorem restoreAll_eq_replay (a : Assembly α) (cs : List ConstraintId) :
    a.restoreAll cs = a.replay (cs.flatMap fun c => (a.constraint c).saved) := by
  unfold restoreAll
  induction cs generalizing a with
  | nil => rfl
  | cons c rest ih =>
    have hfirst : a.restore c = a.replay (a.constraint c).saved := rfl
    rw [List.foldl_cons, ih, List.flatMap_cons]
    simp only [constraint_restore]
    rw [hfirst]
    exact List.foldl_append.symm

end Assembly

/-! ### What constraints have on record -/

variable [Scalar α]

/-- What a constraint saved last in the course of operations, if it saved anything. -/
def recorded (c : ConstraintId) (ops : List (Operation α)) (st : Session α) : Option (List (Saved α)) :=
  (gathered (fun st op => (op.savesIn c st).toList) ops st).getLast?

theorem recorded_concat (c : ConstraintId) (ops : List (Operation α)) (op : Operation α) (st : Session α) :
    recorded c (ops ++ [op]) st = (op.savesIn c (run ops st)).or (recorded c ops st) := by
  unfold recorded
  rw [gathered_concat]
  cases op.savesIn c (run ops st) with
  | none => simp
  | some saved => simp

/-- Nothing but saving touches what is on record, so it is what was saved last. -/
theorem saved_run (c : ConstraintId) (ops : List (Operation α)) (st : Session α) :
    ((run ops st).assembly.constraint c).saved = (recorded c ops st).getD (st.assembly.constraint c).saved := by
  induction ops using List.reverseRecOn with
  | nil => rfl
  | append_singleton rest op ih =>
    rw [run_concat, op.saved_after (run rest st) c, recorded_concat, ih]
    cases op.savesIn c (run rest st) with
    | none => rfl
    | some saved => rfl

/-- The last state of a node that constraints of a list have on record. -/
def recollection (n : NodeId) (cs : List ConstraintId) (ops : List (Operation α)) (st : Session α) : Option (Saved α) :=
  lastState? n (cs.flatMap fun c => (recorded c ops st).getD [])

namespace Act

/-! ### Runs without a sweep -/

/-- A run that may not sweep goes straight to putting back. -/
theorem runs_correct_capped {s : SystemId} {a : Assembly α} (hcap : (a.settings s).cap = 0) :
    Runs (correct s) a fun r b => r = .ok 0 ∧ b = a.restoreAll (a.system s).constraints := by
  unfold Assembly.settings at hcap
  refine runs_traced (runs_read ?_)
  dsimp only
  rw [hcap]
  refine runs_bind (runs_outcome (runs_pure ?_))
  rw [then_ok]
  exact runs_after_rollback (runs_after_report (runs_pure ⟨rfl, rfl⟩))

/-- In any session that operations lead to, a run with a cap below one answers zero and puts each node of the system
back to the last state of it that the constraints of the system have on record.  So it changes nothing exactly where
these states are those that the nodes are in. -/
theorem correct_recalls (ambient : Config α) (journal : Journal α) (ops : List (Operation α)) (s : SystemId)
    (st : Session α) (hst : st = run ops ⟨.empty ambient, journal⟩) (hcap : (st.assembly.settings s).cap = 0) :
    (correct s).answer st = .ok 0 ∧
      (∀ n, ((correct s).after st).assembly.node n = (st.assembly.node n).recall
        (recollection n (st.assembly.system s).constraints ops ⟨.empty ambient, journal⟩)) ∧
      ((∀ n, ((correct s).after st).assembly.node n = st.assembly.node n) ↔
        ∀ n v, recollection n (st.assembly.system s).constraints ops ⟨.empty ambient, journal⟩ = some v →
          v.x = (st.assembly.node n).x ∧ v.y = (st.assembly.node n).y ∧ v.boost = (st.assembly.node n).boost) := by
  obtain ⟨hanswer, hafter⟩ := (runs_correct_capped hcap).at_session
  have hnode (n : NodeId) : ((correct s).after st).assembly.node n = (st.assembly.node n).recall
      (recollection n (st.assembly.system s).constraints ops ⟨.empty ambient, journal⟩) := by
    have hsaved (c : ConstraintId) :
        (st.assembly.constraint c).saved = (recorded c ops ⟨.empty ambient, journal⟩).getD [] := by
      rw [hst]
      exact saved_run c ops ⟨.empty ambient, journal⟩
    rw [hafter, Assembly.restoreAll_eq_replay, Assembly.node_replay]
    simp only [hsaved]
    rfl
  refine ⟨hanswer, hnode, forall_congr' fun n => ?_⟩
  rw [hnode]
  exact Node.recall_eq_self_iff

/-- A pinned bar of length ten is relaxed to the length that it has to have, half of that.  Then the cap is set to zero. -/
def spentBar : List (Operation Float) :=
  [.newConfig ⟨.int 256, 0.1, 1000000.0⟩, .newSystem (some 0), .node 0 0 0 { base := some true }, .node 0 10 0 {},
    .pair 0 0 1 { length := some (.number (.int 5)) }, .correct 0,
    .modifyConfig 0 fun cfg => { cfg with sweeps := .int 0 }]

theorem correct_recalls_spent :
    ((run spentBar ⟨.empty .standard, .empty Level.warning⟩).assembly.settings 0).cap = 0 ∧
      (correct 0).answer (run spentBar ⟨.empty .standard, .empty Level.warning⟩) = .ok 0 := by
  have hcap : ((run spentBar ⟨.empty .standard, .empty Level.warning⟩).assembly.settings 0).cap = 0 := by
    decide +kernel
  exact ⟨hcap, (correct_recalls .standard (.empty Level.warning) spentBar 0 _ rfl hcap).1⟩

/-- The free end, which the first run moved to the length five, is back at ten after the second, which makes no sweep. -/
theorem moved_without_sweep :
    (correct 0).answer (run spentBar ⟨.empty .standard, .empty Level.warning⟩) = .ok 0 ∧
      ((run spentBar ⟨.empty .standard, .empty Level.warning⟩).assembly.node 1).x = 5 ∧
      (((correct 0).after (run spentBar ⟨.empty .standard, .empty Level.warning⟩)).assembly.node 1).x = 10 :=
  ⟨eq_ok_of_toOption (by decide +kernel), by decide +kernel, by decide +kernel⟩

end Act

end Linkage
