import Linkage.Proofs.Rollback

/-!
# Linkage.Proofs.Boosts — the boosts that a failed run gives back

The states that a failed run goes back to are saved in the pass that clears the boosts, constraint by constraint.  A
constraint that shares a node with an earlier one therefore saves a boost that is cleared already, and since saved lists
are replayed in the order of the constraints, the last one that joins a node decides (`boost_restoreAll`).  So a node
that is registered once gets its boost back, and one that is registered more often gets it back only if clearing does
nothing to it, that is, if it is a base node (`correct_boost_eq`).
-/

namespace Linkage

variable {α : Type}

namespace Assembly

/-- How often the constraints of a list join a node. -/
def registrations (a : Assembly α) (constraints : List ConstraintId) (n : NodeId) : Nat :=
  constraints.countP fun c => n ∈ (a.constraint c).shape.nodes

section Lists

variable (a : Assembly α) (rest : List ConstraintId) (c : ConstraintId) (n : NodeId)

theorem registrations_concat : a.registrations (rest ++ [c]) n =
    a.registrations rest n + if n ∈ (a.constraint c).shape.nodes then 1 else 0 := by
  simp [registrations, List.countP_append, List.countP_singleton]

theorem registrations_pos_iff : 0 < a.registrations rest n ↔ n ∈ a.nodesOf rest := by
  simp [registrations, nodesOf, List.countP_pos_iff]

variable [Scalar α]

theorem prepareAll_concat (first : Bool) :
    a.prepareAll first (rest ++ [c]) = (a.prepareAll first rest).prepare first c := by
  unfold prepareAll
  rw [List.foldl_append]
  rfl

theorem restoreAll_concat : a.restoreAll (rest ++ [c]) = (a.restoreAll rest).restore c := by
  unfold restoreAll
  rw [List.foldl_append]
  rfl

end Lists

variable [Scalar α]

/-! ### Saving -/

theorem saved_prepare (a : Assembly α) (c d : ConstraintId) : ((a.prepare true c).constraint d).saved =
    if c = d then (a.constraint c).shape.nodes.map fun n => ⟨n, (a.node n).x, (a.node n).y, (a.node n).boost⟩
    else (a.constraint d).saved := by
  rw [prepare_eq, if_pos rfl, (corrected_clearBoosts (List.Subset.refl _) _).constraint]
  unfold save
  rw [constraint_setConstraint]
  split
  · rfl
  · rfl

/-! ### Restoring -/

theorem node_restore_of_notMem {a : Assembly α} {c : ConstraintId} {n : NodeId}
    (hn : n ∉ (a.constraint c).saved.map Saved.node) : (a.restore c).node n = a.node n := by
  unfold restore
  generalize (a.constraint c).saved = saved at hn
  induction saved generalizing a with
  | nil => rfl
  | cons v rest ih =>
    rw [List.map_cons, List.mem_cons, not_or] at hn
    rw [List.foldl_cons, ih hn.2, node_setNode, if_neg (Ne.symm hn.1)]

/-- Where all that a constraint saved of a node is one boost, restoring gives the node this boost. -/
theorem boost_restore {a : Assembly α} {c : ConstraintId} {n : NodeId} {boost : α}
    (hn : n ∈ (a.constraint c).saved.map Saved.node)
    (hboost : ∀ v ∈ (a.constraint c).saved, v.node = n → v.boost = boost) : ((a.restore c).node n).boost = boost := by
  unfold restore
  generalize (a.constraint c).saved = saved at hn hboost
  -- by induction on what was saved: the boost is the last one replayed, so it is enough that the node is still to come
  have hreplay (b : Assembly α) (hb : n ∈ saved.map Saved.node ∨ (b.node n).boost = boost) :
      ((saved.foldl (fun a s =>
        a.setNode s.node { a.node s.node with x := s.x, y := s.y, boost := s.boost }) b).node n).boost = boost := by
    clear hn
    induction saved generalizing b with
    | nil => exact hb.resolve_left List.not_mem_nil
    | cons v rest ih =>
      refine ih (fun w hw => hboost w (List.mem_cons_of_mem v hw)) _ ?_
      rw [node_setNode]
      -- once it has been replayed, only the same boost can overwrite it
      by_cases hvn : v.node = n
      · rw [if_pos hvn]
        exact Or.inr (hboost v List.mem_cons_self hvn)
      · rw [if_neg hvn]
        exact hb.imp_left fun hn => (List.mem_cons.mp hn).resolve_left (Ne.symm hvn)
  exact hreplay a (Or.inl hn)

theorem constraint_restoreAll (constraints : List ConstraintId) (a : Assembly α) (d : ConstraintId) :
    (a.restoreAll constraints).constraint d = a.constraint d := by
  unfold restoreAll
  induction constraints generalizing a with
  | nil => rfl
  | cons c rest ih => exact (ih _).trans (constraint_restore a c d)

theorem node_restoreAll_of_notMem {a : Assembly α} {constraints : List ConstraintId} {n : NodeId}
    (hn : ∀ c ∈ constraints, n ∉ (a.constraint c).saved.map Saved.node) :
    (a.restoreAll constraints).node n = a.node n := by
  induction constraints using List.reverseRecOn with
  | nil => rfl
  | append_singleton rest c ih =>
    have hlast : n ∉ ((a.restoreAll rest).constraint c).saved.map Saved.node := by
      rw [constraint_restoreAll]
      exact hn c (List.mem_append_right _ (List.mem_singleton_self c))
    rw [restoreAll_concat, node_restore_of_notMem hlast]
    exact ih fun d hd => hn d (List.mem_append_left _ hd)

/-- The boost that replaying gives back to a node which constraints join: the one that it had, if it is registered once,
and otherwise the cleared one, because the last constraint to join it saved it after another had cleared it. -/
theorem boost_restoreAll {o a : Assembly α} {constraints : List ConstraintId} {n : NodeId}
    (hnodes : ∀ c ∈ constraints, (a.constraint c).saved.map Saved.node = (o.constraint c).shape.nodes)
    (hsaved : ∀ c ∈ constraints, n ∈ (o.constraint c).shape.nodes →
      (a.constraint c).saved = ((o.prepareAll true constraints).constraint c).saved)
    (hn : n ∈ o.nodesOf constraints) : ((a.restoreAll constraints).node n).boost =
      if o.registrations constraints n ≤ 1 then (o.node n).boost else (o.node n).clearBoost.boost := by
  induction constraints using List.reverseRecOn with
  | nil => exact absurd hn List.not_mem_nil
  | append_singleton rest c ih =>
    have hlast : c ∈ rest ++ [c] := List.mem_append_right _ (List.mem_singleton_self c)
    have hplan := (relaxed_prepareAll true rest o).toSamePlan
    rw [restoreAll_concat, registrations_concat]
    by_cases hc : n ∈ (o.constraint c).shape.nodes
    · -- the last constraint decides, with what it saved after the others had been prepared
      have hlist : ((a.restoreAll rest).constraint c).saved = (o.constraint c).shape.nodes.map fun m =>
          ⟨m, ((o.prepareAll true rest).node m).x, ((o.prepareAll true rest).node m).y,
            ((o.prepareAll true rest).node m).boost⟩ := by
        rw [constraint_restoreAll, hsaved c hlast hc, prepareAll_concat, saved_prepare, if_pos rfl, hplan.shape]
      have hboost : (((a.restoreAll rest).restore c).node n).boost = ((o.prepareAll true rest).node n).boost := by
        refine boost_restore ?_ ?_
        · rw [constraint_restoreAll, hnodes c hlast]
          exact hc
        · rw [hlist]
          rintro v hv rfl
          obtain ⟨m, -, rfl⟩ := List.mem_map.mp hv
          rfl
      rw [hboost, node_prepareAll, if_pos hc]
      by_cases hrest : n ∈ o.nodesOf rest
      · have hpos := (registrations_pos_iff o rest n).mpr hrest
        rw [if_pos hrest, if_neg (by omega)]
      · have hzero := mt (registrations_pos_iff o rest n).mp hrest
        rw [if_neg hrest, if_pos (by omega)]
    · -- the last constraint has no part in it
      have hout : n ∉ ((a.restoreAll rest).constraint c).saved.map Saved.node := by
        rw [constraint_restoreAll, hnodes c hlast]
        exact hc
      have hrest : n ∈ o.nodesOf rest := by
        have hsplit : o.nodesOf (rest ++ [c]) = o.nodesOf rest ++ o.nodesOf [c] := List.flatMap_append
        rw [hsplit, List.mem_append] at hn
        refine hn.resolve_right fun h => hc ?_
        simpa [nodesOf] using h
      rw [node_restore_of_notMem hout, if_neg hc, Nat.add_zero]
      refine ih (fun d hd => hnodes d (List.mem_append_left _ hd)) (fun d hd hdn => ?_) hrest
      rw [hsaved d (List.mem_append_left _ hd) hdn, prepareAll_concat, saved_prepare, if_neg]
      rintro rfl
      exact hc hdn

end Assembly

namespace Act

variable [Scalar α]

/-! ### Failed runs -/

/-- What holds after rolling back whatever the sweeps leave holds after a run that fails. -/
theorem runs_correct_of_rollback {st : Session α} {s : SystemId} {P : Assembly α → Prop}
    (hsweeps : Runs (sweepsFrom s (st.assembly.system s).constraints
      (st.assembly.config (st.assembly.system s).config).cap 0) st.assembly
        fun _ b => P (b.restoreAll (b.system s).constraints)) :
    Runs (correct s) st.assembly fun r b => (r = .ok 0 ∨ ∃ fault, r = .error fault) → P b := by
  refine runs_traced (runs_read (runs_bind (runs_outcome ((hsweeps.and
    (runs_sweepsFrom_counts s _ _ 0 st (.refl _))).mono fun r b ⟨hundone, hcounts⟩ => ?_))))
  rw [then_ok]
  cases r with
  | error fault => exact runs_after_rollback (runs_throw fun _ => hundone)
  | ok verdict =>
    cases verdict with
    | unmet done => exact runs_after_rollback (runs_after_report (runs_pure fun _ => hundone))
    | met done =>
      refine runs_after_report (runs_pure fun h => ?_)
      -- a run that met every constraint has counted a sweep
      obtain ⟨k, rfl, -, hconverges⟩ := (hcounts.counted done).mp rfl
      have hpos := hconverges.pos
      rcases h with h | ⟨fault, h⟩
      · simp only [Except.ok.injEq] at h
        omega
      · exact nomatch h

/-- Rolling back what sweeps leave gives each node its own boost or the cleared one. -/
theorem runs_sweepsFrom_boost (s : SystemId) (a : Assembly α) (left : Nat) (n : NodeId) :
    Runs (sweepsFrom s (a.system s).constraints (left + 1) 0) a fun _ b =>
      ((b.restoreAll (b.system s).constraints).node n).boost =
        if a.registrations (a.system s).constraints n ≤ 1 then (a.node n).boost else (a.node n).clearBoost.boost := by
  refine runs_sweepsFrom.mono fun _ b hb => ?_
  have hplan := (Assembly.relaxed_prepareAll true (a.system s).constraints a).toSamePlan
  have hsystem : (b.system s).constraints = (a.system s).constraints := by rw [hb.system, hplan.system]
  have hnodes : ∀ c ∈ (a.system s).constraints,
      (b.constraint c).saved.map Saved.node = (a.constraint c).shape.nodes := fun c hc => by
    rw [hb.constraint, ((Assembly.prepareAll_saves a _).2 c hc).nodes, hplan.shape]
  rw [hsystem]
  by_cases hn : n ∈ a.nodesOf (a.system s).constraints
  · exact Assembly.boost_restoreAll hnodes (fun c _ _ => by rw [hb.constraint]) hn
  · have hout : ∀ c ∈ (a.system s).constraints, n ∉ (b.constraint c).saved.map Saved.node := fun c hc h => by
      rw [hnodes c hc] at h
      exact hn (List.mem_flatMap.mpr ⟨c, hc, h⟩)
    have hzero := mt (Assembly.registrations_pos_iff a _ n).mp hn
    rw [Assembly.node_restoreAll_of_notMem hout, hb.outside n hn, Assembly.node_prepareAll, if_neg hn,
      if_pos (by omega)]

/-- After a run that fails, a node has its own boost or the cleared one. -/
theorem runs_correct_boost (st : Session α) (s : SystemId)
    (hcap : 1 ≤ (st.assembly.config (st.assembly.system s).config).cap) (n : NodeId) :
    Runs (correct s) st.assembly fun r b => (r = .ok 0 ∨ ∃ fault, r = .error fault) → (b.node n).boost =
      if st.assembly.registrations (st.assembly.system s).constraints n ≤ 1 then (st.assembly.node n).boost
      else (st.assembly.node n).clearBoost.boost := by
  obtain ⟨left, hleft⟩ : ∃ left, (st.assembly.config (st.assembly.system s).config).cap = left + 1 :=
    ⟨_, (Nat.sub_add_cancel hcap).symm⟩
  have hsweeps := runs_sweepsFrom_boost s st.assembly left n
  rw [← hleft] at hsweeps
  exact runs_correct_of_rollback (P := fun b => (b.node n).boost = _) hsweeps

/-- After a run that may sweep at all and does not meet every constraint, a node has the boost that it had before if it
is a base node or is registered once at most, and none otherwise. -/
theorem correct_boost_eq (st : Session α) (s : SystemId)
    (hcap : 1 ≤ (st.assembly.config (st.assembly.system s).config).cap)
    (hfailed : (correct s).answer st = .ok 0 ∨ ∃ fault, (correct s).answer st = .error fault) (n : NodeId) :
    (((correct s).after st).assembly.node n).boost =
      if (st.assembly.node n).base ∨ st.assembly.registrations (st.assembly.system s).constraints n ≤ 1
      then (st.assembly.node n).boost else 0 := by
  have hboost := (runs_correct_boost st s hcap n).at_session hfailed
  rw [hboost]
  unfold Node.clearBoost
  by_cases hbase : (st.assembly.node n).base = true
  · simp [hbase]
  · simp [hbase]

/-- The joint of two bars that cannot both have their lengths also carries a loose bar.  One correction is counted for
the joint and one for the end of the loose bar. -/
def wornSession : Session Float :=
  let build : Act Float Unit := do
    let s ← newSystem (some (← newConfig ⟨.int 3, 0.1, 1000000.0⟩))
    let left ← node s 0 0 { base := some true }
    let right ← node s 10 0 { base := some true }
    let joint ← node s 4 0 {}
    let tail ← node s 4 2 {}
    discard <| pair s left joint { length := some (.number (.int 5)) }
    discard <| pair s joint right { length := some (.number (.int 7)) }
    discard <| pair s joint tail {}
    modifyNode joint Node.addBoost
    modifyNode tail Node.addBoost
  build.after ⟨.empty .standard, .empty Level.warning⟩

theorem correct_boost_eq_worn :
    1 ≤ (wornSession.assembly.config (wornSession.assembly.system 0).config).cap ∧
      (correct 0).answer wornSession = .ok 0 ∧
      (((correct 0).after wornSession).assembly.node 3).boost = (wornSession.assembly.node 3).boost ∧
      (wornSession.assembly.node 3).boost = 1 := by
  have hcap : 1 ≤ (wornSession.assembly.config (wornSession.assembly.system 0).config).cap := by decide +kernel
  have hanswer : (correct 0).answer wornSession = .ok 0 := eq_ok_of_toOption (by decide +kernel)
  have honce : wornSession.assembly.registrations (wornSession.assembly.system 0).constraints 3 ≤ 1 := by
    decide +kernel
  refine ⟨hcap, hanswer, ?_, by decide +kernel⟩
  have h := correct_boost_eq wornSession 0 hcap (Or.inl hanswer) 3
  rwa [if_pos (Or.inr honce)] at h

/-- A joint of two bars loses its boost in a run that fails. -/
theorem boost_lost_worn : (wornSession.assembly.config (wornSession.assembly.system 0).config).Valid ∧
    (correct 0).answer wornSession = .ok 0 ∧
    (((correct 0).after wornSession).assembly.node 2).boost ≠ (wornSession.assembly.node 2).boost :=
  ⟨by decide +kernel, eq_ok_of_toOption (by decide +kernel), by decide +kernel⟩

end Act

end Linkage
