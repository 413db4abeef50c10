import Linkage.Proofs.Alteration
import Linkage.Proofs.Bodies
import Linkage.Proofs.Ranking

/-!
# Linkage.Proofs.Freedom — degrees of freedom and the residuals that are reported

The degrees of freedom of a system count its targets, and its residuals are measured target by target.  The two agree
because a triple never has a wanted length (`Assembly.Fitted`), which every operation keeps to, so that a constraint
reports as many residuals as it has targets (`runs_residualsOf_length`).  Relaxing works on nodes only and makes no base
node, so it leaves the count as it is, whatever becomes of the run (`freedom_after`).
-/

namespace Linkage

variable {α : Type} [Scalar α]

namespace Assembly

/-! ### Counting -/

/-- How many targets a constraint has. -/
def targetCount (a : Assembly α) (c : ConstraintId) : Nat :=
  (a.constraint c).lengthTarget.isSome.toNat + (a.constraint c).angleTarget.isSome.toNat

theorem freedom_eq_sub_sum (a : Assembly α) (s : SystemId) : a.freedom s =
    2 * ((a.system s).nodes.countP fun n => !(a.node n).base : Nat) -
      (((a.system s).constraints.map a.targetCount).sum : Nat) := by
  have hfold (cs : List ConstraintId) (total : Nat) : cs.foldl (fun total c =>
      total + (a.constraint c).lengthTarget.isSome.toNat + (a.constraint c).angleTarget.isSome.toNat) total =
        total + (cs.map a.targetCount).sum := by
    induction cs generalizing total with
    | nil => rfl
    | cons c rest ih =>
      rw [List.foldl_cons, ih, List.map_cons, List.sum_cons]
      unfold targetCount
      omega
  unfold freedom
  dsimp only
  rw [hfold, Nat.zero_add]

/-- Degrees of freedom are lost and won by registering, by targets and by base nodes only. -/
theorem freedom_of_samePlan {a b : Assembly α} (hplan : SamePlan a b) (hbodies : SameBodies a b) (s : SystemId) :
    b.freedom s = a.freedom s := by
  have hcount : b.targetCount = a.targetCount := by
    funext c
    unfold targetCount
    rw [hplan.lengthTarget, hplan.angleTarget]
  have hbase (n : NodeId) : (b.node n).base = (a.node n).base := (hbodies n).2
  rw [freedom_eq_sub_sum, freedom_eq_sub_sum, hcount, hplan.system]
  simp only [hbase]

/-- Only pairs have a wanted length. -/
def Fitted (a : Assembly α) : Prop := ∀ c, (a.constraint c).shape.kind = .triple → (a.constraint c).lengthTarget = none

end Assembly

open Assembly (Corrected Fitted Relaxed SameBodies SamePlan)

/-- What is made as a triple has no wanted length. -/
theorem Operation.fitted_of_draft {op : Operation α} {node : NodeId → Node α} {k : Constraint α}
    (h : op.draft node = some k) (htriple : k.shape.kind = .triple) : k.lengthTarget = none := by
  unfold draft at h
  split at h
  · obtain ⟨-, _, _, _, -, -, -, rfl⟩ := Constraint.exists_of_pair (Act.eq_ok_of_toOption h)
    cases htriple
  · obtain ⟨-, _, _, _, -, -, -, rfl⟩ := Constraint.exists_of_pair (Act.eq_ok_of_toOption h)
    cases htriple
  · obtain ⟨-, _, -, rfl⟩ := Constraint.exists_of_triple (Act.eq_ok_of_toOption h)
    rfl
  · obtain ⟨-, _, -, rfl⟩ := Constraint.exists_of_triple (Act.eq_ok_of_toOption h)
    rfl
  · cases h

theorem Operation.fitted (op : Operation α) {st : Session α} (h : Fitted st.assembly) :
    Fitted (op.after st).assembly := by
  intro c htriple
  -- only what makes constraints or assigns lengths matters, and both leave triples without a length
  cases op.alters st c with
  | kept owner same =>
    rw [same] at htriple ⊢
    exact h c htriple
  | refused s limit isThis same =>
    rw [same] at htriple ⊢
    exact h c htriple
  | made k owner unmade drafted saveless same =>
    have htriple' : k.shape.kind = .triple := by
      rw [same] at htriple
      exact htriple
    have hnone : k.lengthTarget = none := fitted_of_draft drafted htriple'
    rw [same]
    exact hnone
  | lengthAssigned spec t? isThis isPair settled same =>
    rw [same] at htriple
    cases isPair.symm.trans htriple
  | angleAssigned spec t? isThis settled same =>
    rw [same] at htriple ⊢
    exact h c htriple

theorem fitted_run {st : Session α} (h : Fitted st.assembly) (ops : List (Operation α)) :
    Fitted (run ops st).assembly := by
  induction ops using List.reverseRecOn with
  | nil => exact h
  | append_singleton rest op ih =>
    rw [run_concat]
    exact op.fitted ih

namespace Act

/-! ### Measuring, target by target -/

variable {a : Assembly α}

theorem runs_lengthResidual_length (ha : Fitted a) (c : ConstraintId) : Runs (lengthResidual c) a fun r _ =>
    ∀ rs, r = .ok rs → rs.length = (a.constraint c).lengthTarget.isSome.toNat := by
  refine runs_read ?_
  dsimp only
  split
  · next htriple =>
    refine runs_pure ?_
    rintro _ ⟨⟩
    rw [ha c htriple]
    rfl
  · refine runs_bind ((runs_targetLength_as a c).mono fun r b ⟨_, hread⟩ => ?_)
    cases r with
    | error fault => rintro rs ⟨⟩
    | ok target? =>
      rw [then_ok, (hread target? rfl).1]
      cases target? with
      | none =>
        refine runs_pure ?_
        rintro _ ⟨⟩
        rfl
      | some target =>
        refine runs_bind_pure (runs_ownLength ?_)
        cases b.length c with
        | error fault => rintro rs ⟨⟩
        | ok x =>
          rintro _ ⟨⟩
          rfl

theorem runs_angleResidual_length (a : Assembly α) (c : ConstraintId) : Runs (angleResidual c) a fun r _ =>
    ∀ rs, r = .ok rs → rs.length = (a.constraint c).angleTarget.isSome.toNat := by
  refine runs_read (runs_bind ((runs_targetAngle_as a c).mono fun r b ⟨_, hread⟩ => ?_))
  cases r with
  | error fault => rintro rs ⟨⟩
  | ok target? =>
    rw [then_ok, (hread target? rfl).1]
    cases target? with
    | none =>
      refine runs_pure ?_
      rintro _ ⟨⟩
      rfl
    | some target =>
      refine runs_bind_pure (runs_ownAngle ?_)
      rintro _ ⟨⟩
      rfl

/-- A constraint reports one residual for each of its targets. -/
theorem runs_residualsOf_length (ha : Fitted a) (c : ConstraintId) : Runs (residualsOf c) a fun r _ =>
    ∀ rs, r = .ok rs → rs.length = a.targetCount c := by
  have hmeasure : Keeps (Corrected []) (lengthResidual (α := α) c) := keeps_lengthResidual c
  refine runs_bind (((runs_lengthResidual_length ha c).and (hmeasure a)).mono fun r b ⟨hlength, hab⟩ => ?_)
  cases r with
  | error fault => rintro rs ⟨⟩
  | ok ofLength =>
    rw [then_ok]
    refine runs_bind_pure ((runs_angleResidual_length b c).mono fun r _ hangle => ?_)
    cases r with
    | error fault => rintro rs ⟨⟩
    | ok ofAngle =>
      rintro _ ⟨⟩
      rw [List.length_append, hlength ofLength rfl, hangle ofAngle rfl, hab.constraint]
      rfl

/-- The residuals of a list of constraints are as many as their targets. -/
theorem Measures.length_flatten {cs : List ConstraintId} {lists : List (List (Residual α))} (h : Measures cs a lists)
    (ha : Fitted a) : lists.flatten.length = (cs.map a.targetCount).sum := by
  -- by induction on the measuring: reading residuals changes no target, so that the counts of the rest stay
  induction h with
  | nil a => rfl
  | @cons c rest a b here later first others ih =>
    have hmeasure : Keeps (Corrected []) (residualsOf (α := α) c) := keeps_residualsOf c
    obtain ⟨⟨hhere, hb⟩, hab⟩ := (first.and (hmeasure a)) (.empty Level.warning)
    rw [hb] at hab
    have hcount : here.length = a.targetCount c := runs_residualsOf_length ha c (.empty Level.warning) here hhere
    have hfitted : Fitted b := by
      intro d hd
      rw [hab.constraint] at hd ⊢
      exact ha d hd
    have hsame : b.targetCount = a.targetCount := by
      funext d
      unfold Assembly.targetCount
      rw [hab.constraint]
    rw [List.flatten_cons, List.length_append, hcount, ih hfitted, hsame, List.map_cons, List.sum_cons]

/-! ### Degrees of freedom -/

theorem keeps_sameBodies_solve (s : SystemId) (limit : Option Int) : Keeps (α := α) SameBodies (solve s limit) :=
  Keeps.traced ((keeps_sameBodies_correct s).bind fun _ =>
    (Keeps.sameBodies_of_corrected (keeps_residuals s)).bind fun _ => keeps_read fun a => keeps_pure _ a)

theorem keeps_sameBodies_solveAnnounced (s : SystemId) : Keeps (α := α) SameBodies (solveAnnounced s) :=
  keeps_read fun a => (keeps_report _ _ _).bind (fun _ => (keeps_sameBodies_solve s none).bind fun _ =>
    (keeps_report _ _ _).bind fun _ => keeps_pure _) a

theorem freedom_after {β : Type} {p : Act α β} (hrelaxed : Keeps Relaxed p) (hbodies : Keeps SameBodies p)
    (st : Session α) (s : SystemId) : (p.after st).assembly.freedom s = st.assembly.freedom s :=
  Assembly.freedom_of_samePlan (hrelaxed st.assembly).at_session.toSamePlan (hbodies st.assembly).at_session s

end Act

/-- The laws of the degrees of freedom in a session. -/
structure FreedomLaws (st : Session α) : Prop where
  /-- Two for each node that is no base node, less one for each residual, where the residuals can be measured. -/
  measured : ∀ s rs, (Act.residuals s).answer st = .ok rs → st.assembly.freedom s =
    2 * ((st.assembly.system s).nodes.countP fun n => !(st.assembly.node n).base : Nat) - (rs.length : Int)
  /-- Relaxing leaves them as they are in any system, whatever becomes of the run, -/
  corrected : ∀ s t, ((Act.correct t).after st).assembly.freedom s = st.assembly.freedom s
  solved : ∀ s t limit, ((Act.solve t limit).after st).assembly.freedom s = st.assembly.freedom s
  announced : ∀ s t, ((Act.solveAnnounced t).after st).assembly.freedom s = st.assembly.freedom s
  /-- and a report has them right. -/
  reported : ∀ s limit report, (Act.solve s limit).answer st = .ok report → report.freedom = st.assembly.freedom s

/-- After any run of operations, the degrees of freedom of every system go with the residuals that it reports, and no
relaxation changes them. -/
theorem run_freedomLaws (ambient : Config α) (journal : Journal α) (ops : List (Operation α)) :
    FreedomLaws (run ops ⟨.empty ambient, journal⟩) where
  measured s rs hrs := by
    have hempty : Fitted (Assembly.empty ambient) := fun c _ => rfl
    have hfitted : Fitted (run ops ⟨.empty ambient, journal⟩).assembly := fitted_run hempty ops
    obtain ⟨lists, hlists, rfl⟩ := (Act.runs_residuals_measures s _).at_session rs hrs
    rw [Assembly.freedom_eq_sub_sum, (rank_perm lists.flatten).length_eq, hlists.length_flatten hfitted]
  corrected s t := Act.freedom_after (Act.relaxed_correct t) (Act.keeps_sameBodies_correct t) _ s
  solved s t limit := Act.freedom_after (Act.relaxed_solve t limit) (Act.keeps_sameBodies_solve t limit) _ s
  announced s t := Act.freedom_after (Act.relaxed_solveAnnounced t) (Act.keeps_sameBodies_solveAnnounced t) _ s
  reported s limit report hreport := by
    obtain ⟨rs, -, -, -, -, hfreedom, -⟩ := (Act.runs_solve_measured s limit _).at_session report hreport
    rw [hfreedom]
    exact Act.freedom_after (Act.relaxed_solve s limit) (Act.keeps_sameBodies_solve s limit) _ s

end Linkage
