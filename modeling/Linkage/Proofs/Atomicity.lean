import Linkage.Proofs.Boosts
import Linkage.Proofs.Reading

/-!
# Linkage.Proofs.Atomicity — a solve that fails leaves every node in its place

Solving relaxes a system and then measures it, and measuring reads targets again, where no rollback protects the nodes.
So what matters is whether measuring can fail after a run that met every constraint.  A pair has had both of its targets
read in each sweep, and a steady target that was read once can be read again (`runs_answersOf_readable`).  A triple whose
first ray is too short answers that it is met before its target is read, so a target that cannot be read comes to light
in the measurement only, after the nodes have moved (`solve_moves_skipped`).  Apart from such triples, and from callables
that fail in one place and not in another, solving is atomic (`solve_restores`).
-/

namespace Linkage

variable {α : Type}

namespace Assembly

theorem SamePlan.steady_iff {a b : Assembly α} (h : SamePlan a b) (c : ConstraintId) :
    (b.constraint c).Steady ↔ (a.constraint c).Steady := by
  rw [h.constraint]
  exact ⟨fun hc => ⟨hc.length, hc.angle⟩, fun hc => ⟨hc.length, hc.angle⟩⟩

variable [Scalar α]

/-- The targets that measuring a constraint reads have values. -/
structure Readable (a : Assembly α) (c : ConstraintId) : Prop where
  length : (a.constraint c).shape.kind = .pair → (a.wanted c (a.constraint c).lengthTarget).isOk
  angle : (a.wanted c (a.constraint c).angleTarget).isOk

/-- Moving nodes does not make the targets of a steady constraint readable or unreadable. -/
theorem SamePlan.readable_iff {a b : Assembly α} (h : SamePlan a b) {c : ConstraintId} (hsteady : (a.constraint c).Steady) :
    Readable b c ↔ Readable a c := by
  have hlength := h.wanted_isOk hsteady.length c
  have hangle := h.wanted_isOk hsteady.angle c
  constructor
  · intro hc
    refine ⟨fun hpair => ?_, ?_⟩
    · rw [← hlength, ← h.lengthTarget]
      exact hc.length (by rwa [h.shape])
    · rw [← hangle, ← h.angleTarget]
      exact hc.angle
  · intro hc
    refine ⟨fun hpair => ?_, ?_⟩
    · rw [h.lengthTarget, hlength]
      exact hc.length (by rwa [h.shape] at hpair)
    · rw [h.angleTarget, hangle]
      exact hc.angle

end Assembly

namespace Act

open Assembly (Coherent Corrected Placed Readable Relaxed)

variable [Scalar α] {a : Assembly α} {made : List Reference}

/-! ### Measuring -/

theorem runs_lengthResidual_isOk (h : Coherent made a) {c : ConstraintId} (hc : Readable a c) :
    Runs (lengthResidual c) a fun r b => r.isOk ∧ Relaxed a b := by
  refine runs_read ?_
  cases hshape : (a.constraint c).shape with
  | triple apex ray arm =>
    simp only [hshape, Shape.kind]
    exact runs_pure ⟨rfl, refl_of _ a⟩
  | pair first second direction =>
    simp only [hshape, Shape.kind]
    refine runs_bind ((runs_targetLength_of_coherent h c).mono fun r b ⟨hr, hab⟩ => ?_)
    have hrelaxed : Relaxed a b := (hab.corrected fun r hr => ⟨c, Or.inl hr⟩ : Corrected [] a b).relaxed
    have hok := hc.length (by rw [hshape]; rfl)
    rw [← hr] at hok
    cases r with
    | error e => exact nomatch hok
    | ok target? =>
      rw [then_ok]
      cases target? with
      | none => exact runs_pure ⟨rfl, hrelaxed⟩
      | some target =>
        refine runs_bind_pure (runs_ownLength ⟨?_, hrelaxed⟩)
        unfold Assembly.length
        rw [hrelaxed.shape, hshape]
        rfl

theorem runs_angleResidual_isOk (h : Coherent made a) {c : ConstraintId} (hc : Readable a c) :
    Runs (angleResidual c) a fun r b => r.isOk ∧ Relaxed a b := by
  refine runs_read (runs_bind ((runs_targetAngle_of_coherent h c).mono fun r b ⟨hr, hab⟩ => ?_))
  have hrelaxed : Relaxed a b := (hab.corrected fun r hr => ⟨c, Or.inr hr⟩ : Corrected [] a b).relaxed
  have hok := hc.angle
  rw [← hr] at hok
  cases r with
  | error e => exact nomatch hok
  | ok target? =>
    rw [then_ok]
    cases target? with
    | none => exact runs_pure ⟨rfl, hrelaxed⟩
    | some target => exact runs_bind_pure (runs_ownAngle ⟨rfl, hrelaxed⟩)

/-- A constraint whose targets have values can be measured. -/
theorem runs_residualsOf_isOk (h : Coherent made a) {c : ConstraintId} (hc : Readable a c)
    (hsteady : (a.constraint c).Steady) : Runs (residualsOf c) a fun r b => r.isOk ∧ Relaxed a b := by
  refine runs_bind ((runs_lengthResidual_isOk h hc).mono fun r b ⟨hr, hab⟩ => ?_)
  cases r with
  | error e => exact nomatch hr
  | ok ofLength =>
    rw [then_ok]
    have hb : Readable b c := (hab.readable_iff hsteady).mpr hc
    refine runs_bind_pure ((runs_angleResidual_isOk (h.relaxed hab) hb).mono fun r' b' ⟨hr', hbb'⟩ => ?_)
    exact ⟨(Assembly.isOk_map ..).trans hr', trans_of _ hab hbb'⟩

theorem runs_residualsOfAll_isOk (h : Coherent made a) {constraints : List ConstraintId}
    (hall : ∀ c ∈ constraints, Readable a c) (hsteady : ∀ c ∈ constraints, (a.constraint c).Steady) :
    Runs (residualsOfAll constraints) a fun r _ => r.isOk := by
  -- measuring one constraint leaves the rest readable, as it changes no more than what is remembered
  induction constraints generalizing a with
  | nil => exact runs_pure rfl
  | cons c rest ih =>
    obtain ⟨hc, hrest⟩ := List.forall_mem_cons.mp hall
    obtain ⟨hsteadyc, hsteadyrest⟩ := List.forall_mem_cons.mp hsteady
    refine runs_bind ((runs_residualsOf_isOk h hc hsteadyc).mono fun r b ⟨hr, hab⟩ => ?_)
    cases r with
    | error e => exact nomatch hr
    | ok here =>
      rw [then_ok]
      have hreadable : ∀ d ∈ rest, Readable b d := fun d hd =>
        (hab.readable_iff (hsteadyrest d hd)).mpr (hrest d hd)
      have hsteady' : ∀ d ∈ rest, (b.constraint d).Steady := fun d hd =>
        (hab.steady_iff d).mpr (hsteadyrest d hd)
      exact runs_bind_pure ((ih (h.relaxed hab) hreadable hsteady').mono fun r' b' hr' =>
        (Assembly.isOk_map ..).trans hr')

/-! ### What sweeping has read -/

/-- Correcting a pair has read both of its targets, if it did not fail. -/
theorem runs_correctOne_readable (h : Coherent made a) {c : ConstraintId}
    (hpair : (a.constraint c).shape.kind = .pair) (hsteady : (a.constraint c).Steady) :
    Runs (correctOne c) a fun r _ => r.isOk → Readable a c := by
  refine runs_read ?_
  cases hshape : (a.constraint c).shape with
  | triple apex ray arm =>
    rw [hshape] at hpair
    exact nomatch hpair
  | pair first second direction =>
    -- the passes move the ends, on which no value of a steady target depends
    have hmeet (pass : α → Pass α (Ends α) Bool) (target? : Option α) :
        Keeps Relaxed (meet (fun target => onEnds first second (pass target)) target?) := by
      cases target? with
      | some target =>
        have hkeep : Keeps (Corrected [first, second]) (onEnds first second (pass target)) :=
          keeps_onEnds (by simp) (by simp) (pass target)
        exact hkeep.relaxed
      | none => exact keeps_pure true
    -- the angle is read at the start, and the length after the angle pass has moved the ends
    refine runs_bind ((runs_targetAngle_of_coherent h c).mono fun r b ⟨hangle, hab⟩ => ?_)
    have hab : Relaxed a b := (hab.corrected fun r hr => ⟨c, Or.inr hr⟩ : Corrected [] a b).relaxed
    cases r with
    | error e => exact fun hr => nomatch hr
    | ok angle? =>
      rw [then_ok]
      refine runs_bind ((hmeet _ angle? b).mono fun r' b' hbb' => ?_)
      have hab' : Relaxed a b' := trans_of _ hab hbb'
      cases r' with
      | error e => exact fun hr => nomatch hr
      | ok angleMet =>
        rw [then_ok]
        refine runs_bind ((runs_targetLength_of_coherent (h.relaxed hab') c).mono fun r'' b'' ⟨hlength, _⟩ => ?_)
        cases r'' with
        | error e => exact fun hr => nomatch hr
        | ok length? =>
          rw [hab'.lengthTarget] at hlength
          have hreadable : Readable a c := by
            refine ⟨fun _ => ?_, by rw [← hangle]; rfl⟩
            rw [← hab'.wanted_isOk hsteady.length, ← hlength]
            rfl
          exact fun _ _ => hreadable

/-- A sweep that does not fail has read both targets of every pair. -/
theorem runs_answersOf_readable (h : Coherent made a) {constraints : List ConstraintId}
    (hsteady : ∀ c ∈ constraints, (a.constraint c).Steady) :
    Runs (answersOf constraints) a fun r _ =>
      r.isOk → ∀ c ∈ constraints, (a.constraint c).shape.kind = .pair → Readable a c := by
  -- by induction on the constraints left: what a later one reads, it could have read before the sweep
  induction constraints generalizing a with
  | nil => exact runs_pure fun _ c hc => absurd hc List.not_mem_nil
  | cons c rest ih =>
    obtain ⟨hsteadyc, hsteadyrest⟩ := List.forall_mem_cons.mp hsteady
    have hfirst : Runs (correctOne c) a fun r b =>
        Relaxed a b ∧ (r.isOk → (a.constraint c).shape.kind = .pair → Readable a c) := by
      refine (relaxed_correctOne c a).and ?_
      by_cases hpair : (a.constraint c).shape.kind = .pair
      · exact (runs_correctOne_readable h hpair hsteadyc).mono fun r b hr hok _ => hr hok
      · exact (relaxed_correctOne c a).mono fun r b _ _ hkind => absurd hkind hpair
    refine runs_bind (hfirst.mono fun r b ⟨hab, hc⟩ => ?_)
    cases r with
    | error e => exact fun hr => nomatch hr
    | ok met =>
      rw [then_ok]
      refine runs_bind_pure (Runs.mono (ih (h.relaxed hab) fun d hd => (hab.steady_iff d).mpr (hsteadyrest d hd)) ?_)
      intro r' b' hrest hok d hd hkind
      rcases List.mem_cons.mp hd with rfl | hd
      · exact hc rfl hkind
      · have hreadable := hrest ((Assembly.isOk_map ..).symm.trans hok) d hd (by rwa [hab.shape])
        exact (hab.readable_iff (hsteadyrest d hd)).mp hreadable

theorem runs_bareSweep_readable (h : Coherent made a) {constraints : List ConstraintId}
    (hsteady : ∀ c ∈ constraints, (a.constraint c).Steady) :
    Runs (bareSweep constraints) a fun r _ =>
      r.isOk → ∀ c ∈ constraints, (a.constraint c).shape.kind = .pair → Readable a c := by
  have hclear : Relaxed a (a.clearBoosts (a.nodesOf constraints)) :=
    (Assembly.corrected_clearBoosts (List.Subset.refl _) a).relaxed
  refine runs_after_change (Runs.mono (runs_answersOf_readable (h.relaxed hclear) fun d hd =>
    (hclear.steady_iff d).mpr (hsteady d hd)) ?_)
  intro r b hr hok d hd hpair
  exact (hclear.readable_iff (hsteady d hd)).mp (hr hok d hd (by rwa [hclear.shape]))

/-! ### Solving -/

/-- After a run that met every constraint, whatever could be read of triples before can be measured. -/
theorem runs_correct_readable {st : Session α} {s : SystemId} (h : Coherent made st.assembly)
    (hsteady : ∀ c ∈ (st.assembly.system s).constraints, (st.assembly.constraint c).Steady)
    (htriples : ∀ c ∈ (st.assembly.system s).constraints, (st.assembly.constraint c).shape.kind = .triple →
      ∃ target?, (targetAngle c).answer st = .ok target?) :
    Runs (correct s) st.assembly fun r b => ∀ k, 1 ≤ k → r = .ok k →
      ∀ c ∈ (b.system s).constraints, Readable b c ∧ (b.constraint c).Steady := by
  refine ((runs_correct st s).and (relaxed_correct s st.assembly)).mono fun r b ⟨hr, hab⟩ k hk hok c hc => ?_
  obtain ⟨⟨answers, hanswers⟩, -⟩ := ((hr k hk).1.mp hok).2.first
  rw [hab.system] at hc
  refine ⟨(hab.readable_iff (hsteady c hc)).mpr ?_, (hab.steady_iff c).mpr (hsteady c hc)⟩
  cases hkind : (st.assembly.constraint c).shape.kind with
  | pair =>
    have hread := (runs_bareSweep_readable h hsteady).at_session
    rw [hanswers] at hread
    exact hread rfl c hc hkind
  | triple =>
    obtain ⟨target?, htarget⟩ := htriples c hc hkind
    rw [h.targetAngle] at htarget
    exact ⟨fun hpair => (nomatch hkind.symm.trans hpair), by rw [htarget]; rfl⟩

/-- A failed run has put every node back. -/
theorem runs_correct_placed (st : Session α) (s : SystemId)
    (hcap : 1 ≤ (st.assembly.config (st.assembly.system s).config).cap) :
    Runs (correct s) st.assembly fun r b =>
      (r = .ok 0 ∨ ∃ fault, r = .error fault) → ∀ n, Placed st.assembly b n := by
  obtain ⟨left, hleft⟩ : ∃ left, (st.assembly.config (st.assembly.system s).config).cap = left + 1 :=
    ⟨_, (Nat.sub_add_cancel hcap).symm⟩
  refine runs_correct_of_rollback (P := fun b => ∀ n, Placed st.assembly b n) ?_
  rw [hleft]
  exact runs_sweepsFrom_undoable s st.assembly left

theorem runs_residuals_isOk {s : SystemId} (h : Coherent made a)
    (hall : ∀ c ∈ (a.system s).constraints, Readable a c ∧ (a.constraint c).Steady) :
    Runs (residuals s) a fun r _ => r.isOk :=
  runs_traced (runs_read (runs_bind_pure ((runs_residualsOfAll_isOk h (fun c hc => (hall c hc).1) fun c hc =>
    (hall c hc).2).mono fun _ _ hr => (Assembly.isOk_map ..).trans hr))) writable_residuals

theorem runs_solve_placed {st : Session α} {s : SystemId} (limit : Option Int) (h : Coherent made st.assembly)
    (hcap : 1 ≤ (st.assembly.config (st.assembly.system s).config).cap)
    (hsteady : ∀ c ∈ (st.assembly.system s).constraints, (st.assembly.constraint c).Steady)
    (htriples : ∀ c ∈ (st.assembly.system s).constraints, (st.assembly.constraint c).shape.kind = .triple →
      ∃ target?, (targetAngle c).answer st = .ok target?) :
    Runs (solve s limit) st.assembly fun r b => (∃ fault, r = .error fault) → ∀ n, Placed st.assembly b n := by
  have hcorrect := ((runs_correct_placed st s hcap).and (runs_correct_readable h hsteady htriples)).and
    (relaxed_correct s st.assembly)
  have hrefused : ∀ n, Placed st.assembly st.assembly n := fun n => ⟨rfl, rfl⟩
  refine runs_traced_given (fun _ _ _ _ => hrefused) (runs_bind (hcorrect.mono fun r b ⟨⟨hplaced, hreadable⟩, hab⟩ => ?_))
  cases r with
  | error fault => exact fun _ => hplaced (Or.inr ⟨fault, rfl⟩)
  | ok iterations =>
    rw [then_ok]
    by_cases hzero : iterations = 0
    · -- the nodes are back in their places, and measuring leaves them there
      have hmeasured : Keeps (Corrected (α := α) []) (residuals s) := keeps_residuals s
      refine runs_bind ((hmeasured b).mono fun r' b' hbb' => ?_)
      cases r' with
      | error fault =>
        intro _ n
        unfold Placed
        rw [hbb'.outside n List.not_mem_nil]
        exact hplaced (Or.inl (by rw [hzero])) n
      | ok ranked =>
        rw [then_ok]
        refine runs_read (runs_pure ?_)
        rintro ⟨fault, hfault⟩
        exact nomatch hfault
    · -- measuring does not fail
      have hmet := hreadable iterations (Nat.one_le_iff_ne_zero.mpr hzero) rfl
      refine runs_bind ((runs_residuals_isOk (h.relaxed hab) hmet).mono fun r' b' hr' => ?_)
      cases r' with
      | error fault => exact nomatch hr'
      | ok ranked =>
        rw [then_ok]
        refine runs_read (runs_pure ?_)
        rintro ⟨fault, hfault⟩
        exact nomatch hfault

/-- In any session that operations with references from factories lead to: a solve that fails leaves every node in the
place that it had before, if no callable target fails in one place and not in another, and the wanted angles of triples
can be read when solving starts. -/
theorem solve_restores (ambient : Config α) (journal : Journal α) (ops : List (Operation α))
    (hgenuine : Genuine [] ops ⟨.empty ambient, journal⟩) (s : SystemId) (limit : Option Int) (st : Session α)
    (hst : st = run ops ⟨.empty ambient, journal⟩)
    (hcap : 1 ≤ (st.assembly.config (st.assembly.system s).config).cap)
    (hsteady : ∀ c ∈ (st.assembly.system s).constraints, (st.assembly.constraint c).Steady)
    (htriples : ∀ c ∈ (st.assembly.system s).constraints, (st.assembly.constraint c).shape.kind = .triple →
      ∃ target?, (targetAngle c).answer st = .ok target?)
    (hfailed : ∃ fault, (solve s limit).answer st = .error fault) (n : NodeId) :
    (((solve s limit).after st).assembly.node n).x = (st.assembly.node n).x ∧
      (((solve s limit).after st).assembly.node n).y = (st.assembly.node n).y := by
  have hcoherent : Coherent (referencesOf (gathered Operation.makes ops ⟨.empty ambient, journal⟩)) st.assembly := by
    rw [hst]
    exact coherent_run_empty hgenuine
  exact (runs_solve_placed limit hcoherent hcap hsteady htriples).at_session hfailed n

/-- A bar that has to shrink, a bar with the length of a rod that is not there, and a triple with a first ray too short
to measure an angle against. -/
def rodless : List (Operation Float) :=
  [.make (.lengthFrom "rod" none), .newSystem none,
    .node 0 0 0 { base := some true }, .node 0 10 0 {}, .node 0 0 0 { base := some true }, .node 0 3 3 {},
    .pair 0 0 1 { length := some (.number (.int 5)) },
    .pair 0 0 3 { length := some (.target (.computed rodLength)) },
    .triple 0 0 2 3 { angle := some (.number (.int 1)) }]

theorem solve_restores_rodless :
    Genuine [] rodless ⟨.empty .standard, .empty Level.warning⟩ ∧
      (∃ fault, (solve 0 none).answer (run rodless ⟨.empty .standard, .empty Level.warning⟩) = .error fault) ∧
      (((solve 0 none).after (run rodless ⟨.empty .standard, .empty Level.warning⟩)).assembly.node 1).x =
        ((run rodless ⟨.empty .standard, .empty Level.warning⟩).assembly.node 1).x := by
  set st := run rodless ⟨.empty .standard, .empty Level.warning⟩ with hst
  have hmade : (Operation.make (Recipe.lengthFrom "rod" none)).makes
      ⟨.empty Config.standard, .empty Level.warning⟩ = [rodLength] := rfl
  have hgenuine : Genuine [] rodless ⟨.empty .standard, .empty Level.warning⟩ := by
    refine ⟨List.nil_subset _, ?_⟩
    rw [hmade]
    simp [Genuine, Operation.makes, Operation.references, referencesOf, rodLength, Spec.references, Target.references,
      Formula.references]
  have hcap : 1 ≤ (st.assembly.config (st.assembly.system 0).config).cap := by decide +kernel
  have hfailed : ∃ fault, (solve 0 none).answer st = .error fault := exists_error_of_not_isOk (by decide +kernel)
  have hsteady : ∀ c ∈ (st.assembly.system 0).constraints, (st.assembly.constraint c).Steady := fun c hc =>
    Constraint.steady_of_not_callable (by
      revert c hc
      decide +kernel)
  have hread : ∀ c ∈ (st.assembly.system 0).constraints, (st.assembly.constraint c).shape.kind = .triple →
      ((targetAngle c).answer st).toOption.isSome := by decide +kernel
  have htriples : ∀ c ∈ (st.assembly.system 0).constraints, (st.assembly.constraint c).shape.kind = .triple →
      ∃ target?, (targetAngle c).answer st = .ok target? := fun c hc hkind =>
    (Option.isSome_iff_exists.mp (hread c hc hkind)).imp fun _ => eq_ok_of_toOption
  exact ⟨hgenuine, hfailed, (solve_restores .standard (.empty Level.warning) rodless hgenuine 0 none st hst hcap hsteady
    htriples hfailed 1).1⟩

/-- A bar that has to shrink, and a triple that has a first ray too short to measure an angle against and an angle to
keep from a constraint that is not there. -/
def skippedSession : Session Float :=
  let build : Act Float Unit := do
    let s ← newSystem none
    let origin ← node s 0 0 { base := some true }
    let bar ← node s 10 0 {}
    let ray ← node s 0 0 { base := some true }
    let arm ← node s 3 3 {}
    discard <| pair s origin bar { length := some (.number (.int 5)) }
    let same ← angleFrom "missing" none
    discard <| triple s origin ray arm { angle := some (.target (.computed same)) }
  build.after ⟨.empty .standard, .empty Level.warning⟩

/-- Solving fails after it has moved the end of the bar. -/
theorem solve_moves_skipped : (skippedSession.assembly.config (skippedSession.assembly.system 0).config).Valid ∧
    (∃ fault, (solve 0 none).answer skippedSession = .error fault) ∧
    (((solve 0 none).after skippedSession).assembly.node 1).x ≠ (skippedSession.assembly.node 1).x :=
  ⟨by decide +kernel, exists_error_of_not_isOk (by decide +kernel), by decide +kernel⟩

end Act

end Linkage
