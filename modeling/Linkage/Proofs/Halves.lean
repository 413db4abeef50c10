import Linkage.Proofs.Relaxing

/-!
# Linkage.Proofs.Halves — a pair is corrected in two halves

Correcting a pair first turns it towards its wanted angle and then stretches it to its wanted length, each with what its
target has as its value just then.  The two halves are actions of their own here (`turnOne`, `stretchOne`), because
between them a pair is in a state that no other action sees.  One after the other they are the correction
(`correctOne_of_pair`).
-/

namespace Linkage.Act

open Assembly (Corrected)

variable {α : Type}

/-- What two actions do alike in one session, they answer alike and leave alike. -/
theorem answer_congr {β : Type} {p q : Act α β} {st : Session α} (h : p st = q st) : p.answer st = q.answer st := by
  unfold answer
  rw [h]

theorem after_congr {β : Type} {p q : Act α β} {st : Session α} (h : p st = q st) : p.after st = q.after st := by
  unfold after
  rw [h]

theorem bind_congr_at {β γ : Type} {p : Act α β} {f g : β → Act α γ} {st : Session α}
    (h : ∀ x st', p st = .ok x st' → f x st' = g x st') : (p >>= f) st = (p >>= g) st := by
  simp only [bind, EStateM.bind]
  cases hp : p st with
  | ok x st' => exact h x st' hp
  | error fault st' => rfl

/-- Reading the assembly first, in one session. -/
theorem read_at {β : Type} {f : Assembly α → Act α β} {st : Session α} :
    (assembly >>= f) st = f st.assembly st := rfl

variable [Scalar α]

/-- The first half of correcting a pair: the angle. -/
def turnOne (c : ConstraintId) : Act α Bool := do
  let a ← assembly
  match (a.constraint c).shape with
  | .pair first second direction =>
    meet (fun target => onEnds first second (anglePass (a.configOf c) direction target)) (← targetAngle c)
  | .triple .. => return true

/-- The second half of correcting a pair: the length. -/
def stretchOne (c : ConstraintId) : Act α Bool := do
  let a ← assembly
  match (a.constraint c).shape with
  | .pair first second _ =>
    meet (fun target => onEnds first second (lengthPass (a.configOf c) target)) (← targetLength c)
  | .triple .. => return true

section Equations

variable {st : Session α} {c : ConstraintId} {first second : NodeId} {direction : Direction}

theorem turnOne_of_pair (hshape : (st.assembly.constraint c).shape = .pair first second direction) :
    turnOne c st = (targetAngle c >>= meet fun target =>
      onEnds first second (anglePass (st.assembly.configOf c) direction target)) st := by
  unfold turnOne
  rw [read_at, hshape]

theorem stretchOne_of_pair (hshape : (st.assembly.constraint c).shape = .pair first second direction) :
    stretchOne c st = (targetLength c >>= meet fun target =>
      onEnds first second (lengthPass (st.assembly.configOf c) target)) st := by
  unfold stretchOne
  rw [read_at, hshape]

end Equations

/-! ### Reading first -/

section Reading

variable {a : Assembly α} {c : ConstraintId} {first second : NodeId} {direction : Direction}
  {Q : Except (Fault α) Bool → Assembly α → Prop}

theorem runs_turnOne (hshape : (a.constraint c).shape = .pair first second direction)
    (h : Runs (targetAngle c) a (Then (meet fun target =>
      onEnds first second (anglePass (a.configOf c) direction target)) Q)) : Runs (turnOne c) a Q := by
  refine runs_read ?_
  rw [hshape]
  exact runs_bind h

theorem runs_stretchOne (hshape : (a.constraint c).shape = .pair first second direction)
    (h : Runs (targetLength c) a (Then (meet fun target =>
      onEnds first second (lengthPass (a.configOf c) target)) Q)) : Runs (stretchOne c) a Q := by
  refine runs_read ?_
  rw [hshape]
  exact runs_bind h

/-- The first half moves the ends of the pair at most. -/
theorem runs_turnOne_corrected (hshape : (a.constraint c).shape = .pair first second direction) :
    Runs (turnOne c) a fun _ b => Corrected [first, second] a b := by
  refine runs_turnOne hshape ((keeps_targetAngle c a).mono fun _ b hab => then_of_rel hab fun angle? => ?_)
  cases angle? with
  | some target => exact keeps_onEnds (by simp) (by simp) _ b
  | none => exact keeps_pure true b

end Reading

/-- Correcting a pair is turning it and then stretching it. -/
theorem correctOne_of_pair {st : Session α} {c : ConstraintId} {first second : NodeId} {direction : Direction}
    (hshape : (st.assembly.constraint c).shape = .pair first second direction) :
    correctOne c st = (do
      let angleMet ← turnOne c
      let lengthMet ← stretchOne c
      return lengthMet && angleMet : Act α Bool) st := by
  have hcorrect : correctOne c st = ((targetAngle c >>= meet fun target =>
      onEnds first second (anglePass (st.assembly.configOf c) direction target)) >>= fun angleMet =>
        (targetLength c >>= meet fun target =>
          onEnds first second (lengthPass (st.assembly.configOf c) target)) >>= fun lengthMet =>
            pure (lengthMet && angleMet)) st := by
    unfold correctOne
    rw [read_at, hshape]
    simp only [bind_assoc]
  have hturn : ∀ f : Bool → Act α Bool, (turnOne c >>= f) st = ((targetAngle c >>= meet fun target =>
      onEnds first second (anglePass (st.assembly.configOf c) direction target)) >>= f) st := fun f => by
    change EStateM.bind _ f st = EStateM.bind _ f st
    unfold EStateM.bind
    rw [turnOne_of_pair hshape]
  rw [hcorrect, ← hturn]
  refine bind_congr_at fun angleMet st' hran => ?_
  -- the shape and the configuration are read again, and are as they were
  have hcorrected : Corrected [first, second] st.assembly st'.assembly := by
    have hafter : (turnOne c).after st = st' := by
      unfold after
      rw [hran]
    rw [← hafter]
    exact (runs_turnOne_corrected hshape).at_session
  have hshape' : (st'.assembly.constraint c).shape = .pair first second direction := by
    rw [hcorrected.constraint, hshape]
  change EStateM.bind _ _ st' = EStateM.bind _ _ st'
  unfold EStateM.bind
  rw [stretchOne_of_pair hshape', hcorrected.samePlan.configOf]

/-- What holds after both halves holds after the correction. -/
theorem runs_correctOne_of_halves {a : Assembly α} {c : ConstraintId} {first second : NodeId} {direction : Direction}
    {Q : Except (Fault α) Bool → Assembly α → Prop} (hshape : (a.constraint c).shape = .pair first second direction)
    (h : Runs (turnOne c) a (Then (fun angleMet => do return (← stretchOne c) && angleMet) Q)) :
    Runs (correctOne c) a Q := by
  intro j
  have hhalves := runs_bind h j
  unfold answer after at hhalves ⊢
  rw [correctOne_of_pair hshape]
  exact hhalves

end Linkage.Act
