import Linkage.Mechanism.Sweep
import Linkage.Proofs.Memory
import Linkage.Proofs.Reading

/-!
# Linkage.Proofs.Stepping — a step of a sweep, and steps in a row

A step of a sweep assigns the driver its wanted angle (`Assembly.drive`) and relaxes, so that what a step leads to is what
relaxing leads to from there (`runs_turnTo`).  Steps in a row go on from one to the next until one of them fails.
-/

namespace Linkage

variable {α : Type}

open Act
open Assembly (Coherent Registration)

/-- The constraint wants the angle from now on. -/
def Assembly.drive (a : Assembly α) (c : ConstraintId) (angle : α) : Assembly α :=
  a.setConstraint c { a.constraint c with angleTarget := some (.fixed angle) }

namespace Assembly

theorem constraint_drive (a : Assembly α) (c d : ConstraintId) (angle : α) : (a.drive c angle).constraint d =
    if c = d then { a.constraint c with angleTarget := some (.fixed angle) } else a.constraint d :=
  constraint_setConstraint ..

theorem shape_drive (a : Assembly α) (c d : ConstraintId) (angle : α) :
    ((a.drive c angle).constraint d).shape = (a.constraint d).shape := by
  rw [constraint_drive]
  split
  case isTrue hd => rw [hd]
  case isFalse => rfl

theorem owner_drive (a : Assembly α) (c d : ConstraintId) (angle : α) :
    ((a.drive c angle).constraint d).owner = (a.constraint d).owner := by
  rw [constraint_drive]
  split
  case isTrue hd => rw [hd]
  case isFalse => rfl

/-- The targets of a constraint are those that it had, but for the angle that it is driven to. -/
theorem targets_drive {a : Assembly α} {c d : ConstraintId} {angle : α} {t : Target α}
    (ht : t ∈ ((a.drive c angle).constraint d).targets) : t ∈ (a.constraint d).targets ∨ t = .fixed angle := by
  rw [constraint_drive] at ht
  split at ht
  case isTrue hd =>
    rcases List.mem_append.mp ht with ht | ht
    · exact Or.inl (List.mem_append_left _ (by rwa [← hd]))
    · exact Or.inr (List.mem_singleton.mp ht)
  case isFalse => exact Or.inl ht

/-- References find what they found. -/
theorem lookUp_drive {a : Assembly α} {c d found : ConstraintId} {angle : α} {r : Reference}
    (h : a.lookUp d r = .ok found) : (a.drive c angle).lookUp d r = .ok found := by
  obtain ⟨s, howner, hid, hhas⟩ := lookUp_ok_iff.mp h
  refine lookUp_ok_iff.mpr ⟨s, ?_, hid, ?_⟩
  · rw [owner_drive, howner]
  · rw [shape_drive, hhas]

end Assembly

namespace Act

variable [Scalar α] {a : Assembly α}

/-- Assigning a number as the wanted angle is all that it says. -/
theorem runs_setAngleTarget_number (a : Assembly α) (c : ConstraintId) (angle : α) :
    Runs (setAngleTarget c (.number (.float angle))) a fun r b => r = .ok () ∧ b = a.drive c angle ∧
      ∀ made, Coherent made a → Coherent made b := by
  have hset : Runs (setAngleTarget c (.number (.float angle))) a fun r b => r = .ok () ∧ b = a.drive c angle := by
    have hsettle : (Spec.number (.float angle)).settle (.ok (a.angle c)) = .ok (some (.fixed angle)) := rfl
    refine runs_read (runs_bind (runs_ofExcept ?_))
    rw [hsettle, then_ok]
    exact runs_change ⟨rfl, rfl⟩
  refine (hset.and (quiet_setAngleTarget c (.number (.float angle)) a)).mono ?_
  rintro r b ⟨⟨rfl, rfl⟩, hquiet⟩
  have hregistration : Registration [] a _ fun _ => [] := .nothing hquiet fun _ => rfl
  exact ⟨rfl, rfl, fun made hmade => hregistration.coherent hmade (List.nil_subset _)⟩

/-- A step of a sweep leads to what relaxing leads to, once the angle of the step is assigned. -/
theorem runs_turnTo {m : Mechanism} {steps step : Int} {turns : α}
    {Q : Except (Fault α) (Mechanism.Step α) → Assembly α → Prop}
    (hfail : ∀ fault, Mechanism.stepAngle steps turns step = .error fault → Q (.error fault) a)
    (hrelax : ∀ phi, Mechanism.stepAngle steps turns step = .ok phi →
      (∀ made, Coherent made a → Coherent made (a.drive m.driver phi)) →
      Runs (correct m.system) (a.drive m.driver phi) fun r b =>
        Q ((fun k => ⟨step, phi, k, m.coords b⟩) <$> r) b) :
    Runs (m.turnTo steps turns step) a Q := by
  refine runs_bind (runs_ofExcept ?_)
  cases hphi : Mechanism.stepAngle steps turns step with
  | error fault => exact hfail fault hphi
  | ok phi =>
    rw [then_ok]
    refine runs_bind ((runs_setAngleTarget_number a m.driver phi).mono ?_)
    rintro _ _ ⟨rfl, rfl, hcoherent⟩
    rw [then_ok]
    refine runs_bind ((hrelax phi hphi hcoherent).mono fun r b hQ => ?_)
    cases r with
    | error fault => exact hQ
    | ok iterations =>
      rw [then_ok]
      have hlast : Runs (do return (⟨step, phi, iterations, m.coords (← assembly)⟩ : Mechanism.Step α)) b Q :=
        runs_read (runs_pure hQ)
      split
      · exact runs_after_report hlast
      · exact hlast

end Act

/-! ### Steps in a row -/

namespace Mechanism

variable [Scalar α] {m : Mechanism} {steps : Int} {turns : α} {done : Nat} {st st' : Session α} {first : Step α}

/-- A step that does not fail comes before the later ones. -/
theorem stepsFrom_succ_ok (left : Nat) (h : m.turnTo steps turns (done + 1) st = .ok first st') :
    m.stepsFrom steps turns (left + 1) done st =
      (⟨first :: (m.stepsFrom steps turns left (done + 1) st').1.items,
        (m.stepsFrom steps turns left (done + 1) st').1.failure⟩, (m.stepsFrom steps turns left (done + 1) st').2) := by
  conv_lhs => unfold stepsFrom
  rw [h]

theorem stepsFrom_succ_error (left : Nat) {fault : Fault α} (h : m.turnTo steps turns (done + 1) st = .error fault st') :
    m.stepsFrom steps turns (left + 1) done st = (⟨[], some fault⟩, st') := by
  conv_lhs => unfold stepsFrom
  rw [h]

/-- A sweep whose first driven angle is no number of the kind has no step. -/
theorem sweep_of_stepAngle_error {fault : Fault α} (hsteps : 1 ≤ steps) (h : stepAngle steps turns 1 = .error fault) :
    m.sweep steps turns st = (⟨[], some fault⟩, st) := by
  have hturn : m.turnTo steps turns ((0 : Nat) + 1) st = .error fault st := by
    unfold turnTo
    rw [Int.natCast_zero, Int.zero_add, h]
    rfl
  obtain ⟨left, hleft⟩ := Nat.exists_eq_succ_of_ne_zero (show steps.toNat ≠ 0 by omega)
  unfold sweep
  rw [if_neg (by omega), hleft]
  exact stepsFrom_succ_error _ hturn

/-- Steps that do not fail yield an item each. -/
theorem length_stepsFrom (left done : Nat) (st : Session α) (h : (m.stepsFrom steps turns left done st).1.failure = none) :
    (m.stepsFrom steps turns left done st).1.items.length = left := by
  induction left generalizing done st with
  | zero => rfl
  | succ left ih =>
    cases hstep : m.turnTo steps turns (done + 1) st with
    | error fault st' =>
      rw [stepsFrom_succ_error left hstep] at h
      exact nomatch h
    | ok first st' =>
      rw [stepsFrom_succ_ok left hstep] at h ⊢
      rw [List.length_cons, ih (done + 1) st' h]

end Mechanism

end Linkage
