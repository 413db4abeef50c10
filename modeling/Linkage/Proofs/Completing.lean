import Linkage.Proofs.Bounds
import Linkage.Proofs.Failures
import Linkage.Proofs.Stepping

/-!
# Linkage.Proofs.Completing — sweeps that come to their end

On doubles a mechanism may be driven where it cannot go, and its positions may become infinite or undefined on the way.  A
step fails for none of this: it is not met and the mechanism is put back.  All that is needed is that the mechanism is
`Ready`, with masses, a valid configuration and targets that are numbers or keep an angle ahead of another one.  A step
whose driven angle is finite leaves it ready (`runs_turnTo_ready`), so a sweep with such angles has all of its steps, in
order (`sweep_complete`).
-/

namespace Linkage

open Act
open Assembly (Coherent Relaxed Workable)

/-! ### Targets of ready mechanisms -/

/-- The target is a number, or keeps an angle at most half a turn ahead of that of a constraint that can be found. -/
inductive Target.Readable (a : Assembly Float) (c : ConstraintId) : Target Float → Prop where
  | fixed (x : Float) : Readable a c (.fixed x)
  | ahead (name : Label Float) (r : Reference) (d : ConstraintId) (found : a.lookUp c r = .ok d) :
      Readable a c (.computed ⟨name, .around r 0 Scalar.pi⟩)

namespace Assembly

variable {a b : Assembly Float} {c : ConstraintId} {t : Target Float} {made : List Reference}

theorem readable_of_lookUp (h : t.Readable a c) (hab : ∀ r d, a.lookUp c r = .ok d → b.lookUp c r = .ok d) :
    t.Readable b c := by
  cases h with
  | fixed x => exact .fixed x
  | ahead name r d found => exact .ahead name r d (hab r d found)

theorem readable_relaxed (h : t.Readable a c) (hab : Relaxed a b) : t.Readable b c := by
  refine readable_of_lookUp h fun r d hd => ?_
  rwa [hab.toSamePlan.lookUp]

/-- An angle kept ahead of another one is never infinite. -/
theorem targetValue_ahead (name : Label Float) {r : Reference} {d : ConstraintId} (hd : a.lookUp c r = .ok d) :
    ∃ x, a.targetValue c (.computed ⟨name, .around r 0 Scalar.pi⟩) = .ok x ∧ Scalar.isInfinite x = false := by
  refine ⟨Scalar.clamp (Scalar.wrap (a.angle c - a.angle d)) 0 Scalar.pi + a.angle d, ?_, ?_⟩
  · change (a.angleThrough c r >>= _) = _
    rw [angleThrough_ok hd]
    rfl
  · exact Number.isInfinite_ahead _ (Number.small_angle _ _)

/-- Readable targets answer in a coherent memory. -/
theorem answers_of_readable (h : t.Readable a c) (hmade : Coherent made a) (ht : t ∈ (a.constraint c).targets) :
    a.Answers c t := by
  intro b hab
  have hcites (r : Reference) (hr : r ∈ Target.referencesOf (some t)) : b.Cites r := by
    rw [hab.cites]
    rcases List.mem_append.mp ht with ht | ht
    · exact ⟨c, Or.inl (by rwa [Option.mem_toList.mp ht])⟩
    · exact ⟨c, Or.inr (by rwa [Option.mem_toList.mp ht])⟩
  obtain ⟨hapart, hhonest⟩ : Apart t.references ∧ ∀ r ∈ t.references, b.Honest c r := (hmade.relaxed hab).stored hcites
  cases readable_relaxed h hab with
  | fixed x => exact runs_pure ⟨x, rfl, fun _ => .fixed⟩
  | ahead name r d found =>
    obtain ⟨x, hx, hfinite⟩ := targetValue_ahead name found
    refine (runs_evaluate b c _).mono fun res _ ⟨_, hvalue⟩ => ⟨x, ?_, fun hinfinite => ?_⟩
    · rw [hvalue hapart hhonest, hx]
    · exact nomatch hfinite.symm.trans hinfinite

end Assembly

namespace Mechanism

variable {m : Mechanism} {a b : Assembly Float} {steps : Int} {turns : Float}

/-! ### Ready mechanisms -/

/-- Relaxing the mechanism cannot fail: the configuration of its system has a positive reach, nodes have masses, targets
can be read, and no wanted angle is infinite. -/
structure Ready (m : Mechanism) (a : Assembly Float) : Prop where
  coherent : ∃ made, Coherent made a
  reach : 0 < (a.config (a.system m.system).config).reach
  massive : ∀ c ∈ (a.system m.system).constraints, ∀ n ∈ (a.constraint c).shape.nodes,
    (a.node n).base = true ∨ 0 < (a.node n).mass
  readable : ∀ c ∈ (a.system m.system).constraints, ∀ t ∈ (a.constraint c).targets, t.Readable a c
  finite : ∀ c ∈ (a.system m.system).constraints, ∀ x, (a.constraint c).angleTarget = some (.fixed x) →
    Scalar.isInfinite x = false

namespace Ready

theorem workable (h : m.Ready a) : ∀ c ∈ (a.system m.system).constraints, a.Workable c := by
  obtain ⟨made, hmade⟩ := h.coherent
  intro c hc
  refine ⟨?_, h.massive c hc, fun t ht => Assembly.answers_of_readable (h.readable c hc t ht) hmade ht⟩
  rw [hmade.consistent.configOf hc]
  exact h.reach

theorem not_aimsAtInfinity (h : m.Ready a) : ¬∃ c ∈ (a.system m.system).constraints, (a.constraint c).AimsAtInfinity := by
  rintro ⟨c, hc, t, x, ht, hconstant, hinfinite⟩
  cases h.readable c hc t (List.mem_append_right _ (by rw [ht]; exact List.mem_singleton_self t)) with
  | fixed y =>
    cases hconstant with
    | fixed => exact nomatch (h.finite c hc x ht).symm.trans hinfinite
  | ahead name r d found => exact nomatch hconstant

/-- Relaxing leaves a mechanism ready whose constraints it leaves workable. -/
theorem relaxed (h : m.Ready a) (hab : Relaxed a b) (hworkable : ∀ c ∈ (a.system m.system).constraints, b.Workable c) :
    m.Ready b where
  -- relaxing changes what nodes and memory hold, and none of the readiness is about that, except for masses
  coherent := by
    obtain ⟨made, hmade⟩ := h.coherent
    exact ⟨made, hmade.relaxed hab⟩
  reach := by
    rw [hab.system, hab.config]
    exact h.reach
  massive c hc := by
    rw [hab.system] at hc
    exact (hworkable c hc).massive
  readable c hc t ht := by
    rw [hab.system] at hc
    rw [hab.toSamePlan.targets] at ht
    exact Assembly.readable_relaxed (h.readable c hc t ht) hab
  finite c hc x hx := by
    rw [hab.system] at hc
    rw [hab.angleTarget] at hx
    exact h.finite c hc x hx

/-- Driving to a finite angle leaves a mechanism ready. -/
theorem drive (h : m.Ready a) {phi : Float} (hphi : Scalar.isInfinite phi = false)
    (hcoherent : ∀ made, Coherent made a → Coherent made (a.drive m.driver phi)) : m.Ready (a.drive m.driver phi) where
  coherent := by
    obtain ⟨made, hmade⟩ := h.coherent
    exact ⟨made, hcoherent made hmade⟩
  reach := h.reach
  massive c hc := by
    rw [Assembly.shape_drive]
    exact h.massive c hc
  readable c hc t ht := by
    rcases Assembly.targets_drive ht with ht | rfl
    · exact Assembly.readable_of_lookUp (h.readable c hc t ht) fun r d => Assembly.lookUp_drive
    · exact .fixed phi
  finite c hc x hx := by
    rw [Assembly.constraint_drive] at hx
    split at hx
    case isTrue => cases hx; exact hphi
    case isFalse => exact h.finite c hc x hx

end Ready

/-! ### Steps and sweeps -/

/-- A step to a finite angle does not fail, and leaves the mechanism ready. -/
theorem runs_turnTo_ready (h : m.Ready a) {step : Int} {phi : Float} (hphi : stepAngle steps turns step = .ok phi)
    (hfinite : Scalar.isInfinite phi = false) :
    Runs (m.turnTo steps turns step) a fun r b => m.Ready b ∧ ∃ item, r = .ok item ∧ item.step = step := by
  refine runs_turnTo (fun fault hfault => nomatch hphi.symm.trans hfault) fun phi' hphi' hcoherent => ?_
  obtain rfl := Except.ok.inj (hphi.symm.trans hphi')
  have hready := h.drive hfinite hcoherent
  refine ((runs_correct_workable hready.workable).and (relaxed_correct m.system _)).mono ?_
  rintro r b ⟨⟨⟨k, rfl⟩ | ⟨-, haims⟩, hworkable⟩, hrelaxed⟩
  · exact ⟨hready.relaxed hrelaxed (hworkable ⟨k, rfl⟩), _, rfl, rfl⟩
  · exact absurd haims hready.not_aimsAtInfinity

/-- Steps to finite angles all come, in order. -/
theorem stepsFrom_ready (left done : Nat) {st : Session Float} (h : m.Ready st.assembly)
    (hfinite : ∀ i, done ≤ i → i < done + left →
      ∃ phi, stepAngle steps turns (i + 1) = .ok phi ∧ Scalar.isInfinite phi = false) :
    (m.stepsFrom steps turns left done st).1.failure = none ∧
      (m.stepsFrom steps turns left done st).1.items.map Step.step =
        (List.range' (done + 1) left).map fun i : Nat => (i : Int) := by
  induction left generalizing done st with
  | zero => exact ⟨rfl, rfl⟩
  | succ left ih =>
    -- by induction on the steps left: one step answers and leaves the mechanism ready for the others
    obtain ⟨phi, hphi, hphi'⟩ := hfinite done (Nat.le_refl done) (by omega)
    obtain ⟨hready, item, hitem, hstep⟩ := (runs_turnTo_ready h hphi hphi').at_session
    unfold answer at hitem
    unfold after at hready
    cases hturn : m.turnTo steps turns (done + 1) st with
    | error fault st' =>
      rw [hturn] at hitem
      exact nomatch hitem
    | ok first st' =>
      rw [hturn] at hitem hready
      obtain rfl : first = item := Except.ok.inj hitem
      obtain ⟨hfailure, hitems⟩ := ih (done + 1) hready fun i hi hi' => hfinite i (by omega) (by omega)
      rw [stepsFrom_succ_ok left hturn]
      refine ⟨hfailure, ?_⟩
      rw [List.map_cons, hstep, hitems, List.range'_succ, List.map_cons, Nat.cast_succ]

/-- A ready mechanism whose driven angles are finite goes through all of its steps, in order. -/
theorem sweep_complete {st : Session Float} (h : m.Ready st.assembly) (hsteps : 1 ≤ steps)
    (hfinite : ∀ i : Nat, 1 ≤ i → i ≤ steps.toNat →
      ∃ phi, stepAngle steps turns i = .ok phi ∧ Scalar.isInfinite phi = false) :
    (m.sweep steps turns st).1.failure = none ∧
      (m.sweep steps turns st).1.items.map Step.step = (List.range' 1 steps.toNat).map fun i : Nat => (i : Int) := by
  have hsweep : m.sweep steps turns st = m.stepsFrom steps turns steps.toNat 0 st := if_neg (by omega)
  rw [hsweep]
  exact stepsFrom_ready _ 0 h fun i _ hi => hfinite (i + 1) (by omega) (by omega)

end Mechanism

end Linkage
