import Linkage.Proofs.Memory

/-!
# Linkage.Proofs.Reading — reading stored targets where the memory is coherent

Where the memory is coherent, reading a stored target has the value that it has with every reference looked up anew,
and leaves the memory coherent.  Whether there is a value depends on what is registered and not on where the nodes are
(`SamePlan.wanted_isOk`), except for callable targets that decide otherwise; `Steady` targets do not.
-/

namespace Linkage

variable {α : Type}

/-- Whether the formula has a value does not depend on the nodes: a callable fails for a shape of its owner, or it does
not. -/
def Formula.Steady : Formula α → Prop
  | .callable read => ∀ v w : Sight α, v.owner = w.owner → (read v).isOk = (read w).isOk
  | _ => True

/-- Whether the formula runs code of the user. -/
def Formula.isCallable : Formula α → Bool
  | .callable _ => true
  | _ => false

theorem Formula.steady_of_not_callable {f : Formula α} (h : f.isCallable = false) : f.Steady := by
  cases f with
  | callable read => exact nomatch h
  | _ => exact trivial

/-- Whether the target has a value does not depend on the nodes. -/
def Target.Steady : Target α → Prop
  | .fixed _ => True
  | .computed k => k.formula.Steady

/-- Whether the target runs code of the user. -/
def Target.isCallable : Target α → Bool
  | .fixed _ => false
  | .computed k => k.formula.isCallable

/-- The target runs no code of the user, or code that has the property. -/
def Target.IfCallable (P : (Sight α → Except (Fault α) α) → Prop) : Target α → Prop
  | .computed ⟨_, .callable read⟩ => P read
  | _ => True

section IfCallable

variable {P Q : (Sight α → Except (Fault α) α) → Prop}

theorem Target.ifCallable_of_forall (h : ∀ read, P read) (t : Target α) : t.IfCallable P := by
  cases t with
  | fixed x => exact trivial
  | computed k =>
    obtain ⟨name, f⟩ := k
    cases f with
    | callable read => exact h read
    | _ => exact trivial

theorem Target.IfCallable.mono {t : Target α} (h : t.IfCallable P) (hPQ : ∀ read, P read → Q read) :
    t.IfCallable Q := by
  cases t with
  | fixed x => exact trivial
  | computed k =>
    obtain ⟨name, f⟩ := k
    cases f with
    | callable read => exact hPQ read h
    | _ => exact trivial

theorem Target.ifCallable_of_not_callable {t : Target α} (h : t.isCallable = false) : t.IfCallable P := by
  cases t with
  | fixed x => exact trivial
  | computed k =>
    obtain ⟨name, f⟩ := k
    cases f with
    | callable read => exact nomatch h
    | _ => exact trivial

end IfCallable

theorem Target.steady_of_not_callable {t : Target α} (h : t.isCallable = false) : t.Steady := by
  cases t with
  | fixed x => exact trivial
  | computed k => exact k.formula.steady_of_not_callable h

/-- Whether the targets of the constraint have values does not depend on the nodes. -/
structure Constraint.Steady (k : Constraint α) : Prop where
  length : ∀ t, k.lengthTarget = some t → t.Steady
  angle : ∀ t, k.angleTarget = some t → t.Steady

/-- The targets of the constraint. -/
def Constraint.targets (k : Constraint α) : List (Target α) := k.lengthTarget.toList ++ k.angleTarget.toList

theorem Constraint.steady_of_not_callable {k : Constraint α} (h : ∀ t ∈ k.targets, t.isCallable = false) :
    k.Steady where
  length t ht := t.steady_of_not_callable (h t (by simp [targets, ht]))
  angle t ht := t.steady_of_not_callable (h t (by simp [targets, ht]))

namespace Assembly

variable {a b : Assembly α} {made : List Reference}

/-- Relaxing keeps the memory coherent. -/
theorem Coherent.relaxed (h : Coherent made a) (hab : Relaxed a b) : Coherent made b :=
  have hregistration : Registration [] a b fun _ => [] := .nothing hab.quiet fun _ => rfl
  hregistration.coherent h (List.nil_subset _)

theorem SamePlan.lookUp (h : SamePlan a b) (c : ConstraintId) (r : Reference) : b.lookUp c r = a.lookUp c r := by
  unfold Assembly.lookUp Assembly.resolved
  simp only [h.owner, h.id, h.byId?, h.shape]

theorem SamePlan.targets (h : SamePlan a b) (c : ConstraintId) :
    (b.constraint c).targets = (a.constraint c).targets := by
  unfold Constraint.targets
  rw [h.lengthTarget, h.angleTarget]

/-! ### Whether there is a value -/

theorem isOk_map {β γ : Type} (g : β → γ) (r : Except (Fault α) β) : (g <$> r).isOk = r.isOk := by
  cases r with
  | ok x => rfl
  | error e => rfl

theorem isOk_bind_congr {β γ : Type} {r r' : Except (Fault α) β} {f f' : β → Except (Fault α) γ}
    (hr : r.isOk = r'.isOk) (hf : ∀ x y, (f x).isOk = (f' y).isOk) : (r >>= f).isOk = (r' >>= f').isOk := by
  cases r with
  | ok x =>
    cases r' with
    | ok y => exact hf x y
    | error e => exact nomatch hr
  | error e =>
    cases r' with
    | ok y => exact nomatch hr
    | error e' => rfl

variable [Scalar α]

theorem SamePlan.length_isOk (h : SamePlan a b) (c : ConstraintId) : (b.length c).isOk = (a.length c).isOk := by
  unfold Assembly.length
  rw [h.shape]
  cases (a.constraint c).shape with
  | pair first second direction => rfl
  | triple apex ray arm => rfl

theorem SamePlan.lengthThrough_isOk (h : SamePlan a b) (c : ConstraintId) (r : Reference) :
    (b.lengthThrough c r).isOk = (a.lengthThrough c r).isOk := by
  unfold lengthThrough
  rw [h.lookUp]
  cases a.lookUp c r with
  | ok d => exact h.length_isOk d
  | error e => rfl

theorem SamePlan.angleThrough_isOk (h : SamePlan a b) (c : ConstraintId) (r : Reference) :
    (b.angleThrough c r).isOk = (a.angleThrough c r).isOk :=
  isOk_bind_congr (by rw [h.lookUp]) fun _ _ => rfl

/-- A steady formula has a value in the one assembly if it has one in the other. -/
theorem SamePlan.valueOf_isOk (h : SamePlan a b) {f : Formula α} (hf : f.Steady) (c : ConstraintId) :
    (b.valueOf c f).isOk = (a.valueOf c f).isOk := by
  cases f with
  | ownLengthMin least => exact isOk_bind_congr (h.length_isOk c) fun _ _ => rfl
  | ownLengthMax most => exact isOk_bind_congr (h.length_isOk c) fun _ _ => rfl
  | ownLengthRange least most => exact isOk_bind_congr (h.length_isOk c) fun _ _ => rfl
  | lengthOf r factor => exact isOk_bind_congr (h.lengthThrough_isOk c r) fun _ _ => rfl
  | ownAngleMin least => rfl
  | ownAngleMax most => rfl
  | ownAngleRange least most => rfl
  | angleOf r offset => exact isOk_bind_congr (h.angleThrough_isOk c r) fun _ _ => rfl
  | around r least most => exact isOk_bind_congr (h.angleThrough_isOk c r) fun _ _ => rfl
  | obtuse r => exact isOk_bind_congr (h.angleThrough_isOk c r) fun _ _ => rfl
  | between r₁ r₂ scale =>
    exact isOk_bind_congr (h.angleThrough_isOk c r₁) fun _ _ =>
      isOk_bind_congr (h.angleThrough_isOk c r₂) fun _ _ => rfl
  | callable read => exact hf _ _ (h.shape c)

theorem SamePlan.wanted_isOk (h : SamePlan a b) {t? : Option (Target α)} (ht : ∀ t, t? = some t → t.Steady)
    (c : ConstraintId) : (b.wanted c t?).isOk = (a.wanted c t?).isOk := by
  cases t? with
  | none => rfl
  | some t =>
    refine (isOk_map ..).trans (Eq.trans ?_ (isOk_map ..).symm)
    cases t with
    | fixed x => rfl
    | computed k => exact h.valueOf_isOk (ht _ rfl) c

end Assembly

/-! ### Reading -/

namespace Act

open Assembly (Coherent Consulted)

variable [Scalar α] {a : Assembly α} {made : List Reference}

theorem runs_targetLength_of_coherent (h : Coherent made a) (c : ConstraintId) :
    Runs (targetLength c) a fun r b => r = a.wanted c (a.constraint c).lengthTarget ∧
      Consulted c (Target.referencesOf (a.constraint c).lengthTarget) a b := by
  obtain ⟨hapart, hhonest⟩ := h.stored (c := c) fun r hr => ⟨c, Or.inl hr⟩
  exact (runs_targetLength a c).mono fun r b hread => ⟨hread.2 hapart hhonest, hread.1⟩

theorem runs_targetAngle_of_coherent (h : Coherent made a) (c : ConstraintId) :
    Runs (targetAngle c) a fun r b => r = a.wanted c (a.constraint c).angleTarget ∧
      Consulted c (Target.referencesOf (a.constraint c).angleTarget) a b := by
  obtain ⟨hapart, hhonest⟩ := h.stored (c := c) fun r hr => ⟨c, Or.inr hr⟩
  exact (runs_targetAngle a c).mono fun r b hread => ⟨hread.2 hapart hhonest, hread.1⟩

end Act

end Linkage
