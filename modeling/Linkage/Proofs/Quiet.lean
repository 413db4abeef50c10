import Linkage.Proofs.Factories
import Linkage.Proofs.Registering
import Linkage.Proofs.Relaxing

/-!
# Linkage.Proofs.Quiet — operations that register nothing

Most operations leave the registry alone (`SameRegistry`).  They may make constraints that no system has registered,
store targets and give out keys for new references, and what they newly remember is always what a stored or a given
reference finds.  `Quiet refs` says all of this, and each such operation is quiet for the references that it is given.
-/

namespace Linkage

variable {α : Type}

namespace Assembly

/-! ### Operations that leave the registry alone -/

/-- The registry of `b` is that of `a`: the same lists and indices, and the same owners.  New constraints may have been
made. -/
structure SameRegistry (a b : Assembly α) : Prop where
  system : ∀ s, b.system s = { a.system s with config := (b.system s).config }
  owner : ∀ c, (b.constraint c).owner = (a.constraint c).owner
  made : ∀ c < a.constraints.size,
    (b.constraint c).id = (a.constraint c).id ∧ (b.constraint c).shape = (a.constraint c).shape
  size : a.constraints.size ≤ b.constraints.size

namespace SameRegistry

variable {a b : Assembly α}

theorem nodes (h : SameRegistry a b) (s : SystemId) : (b.system s).nodes = (a.system s).nodes := by rw [h.system]

theorem constraints (h : SameRegistry a b) (s : SystemId) : (b.system s).constraints = (a.system s).constraints := by
  rw [h.system]

theorem byId? (h : SameRegistry a b) (s : SystemId) (id : String) : b.byId? s id = a.byId? s id := by
  unfold Assembly.byId?; rw [h.system]

end SameRegistry

instance : IsPreorder (Assembly α) SameRegistry where
  refl _ := ⟨fun _ => rfl, fun _ => rfl, fun _ _ => ⟨rfl, rfl⟩, Nat.le_refl _⟩
  trans _ _ _ h h' := by
    refine ⟨fun s => ?_, fun c => (h'.owner c).trans (h.owner c), fun c hc => ?_, Nat.le_trans h.size h'.size⟩
    · rw [h'.system s, h.system s]
    · obtain ⟨hid, hshape⟩ := h.made c hc
      obtain ⟨hid', hshape'⟩ := h'.made c (Nat.lt_of_lt_of_le hc h.size)
      exact ⟨hid'.trans hid, hshape'.trans hshape⟩

theorem SamePlan.sameRegistry {a b : Assembly α} (h : SamePlan a b) : SameRegistry a b where
  system s := by rw [h.system]
  owner := h.owner
  made c _ := ⟨h.id c, h.shape c⟩
  size := h.size

/-- Where systems and constraints are as they were, so is the registry. -/
theorem sameRegistry_of_tables {a b : Assembly α} (hsystems : b.systems = a.systems)
    (hconstraints : b.constraints = a.constraints) : SameRegistry a b := by
  have hconstraint (c : ConstraintId) : b.constraint c = a.constraint c := by unfold constraint; rw [hconstraints]
  refine ⟨fun s => ?_, fun c => by rw [hconstraint], fun c _ => by rw [hconstraint]; exact ⟨rfl, rfl⟩,
    Nat.le_of_eq (by rw [hconstraints])⟩
  unfold system
  rw [hsystems]

theorem constraint_push (a : Assembly α) (k : Constraint α) (c : ConstraintId) :
    ({ a with constraints := a.constraints.push k } : Assembly α).constraint c =
      if c = a.constraints.size then k else a.constraint c := Table.get_push ..

/-- A constraint number that was never given out reads as a constraint without an owner. -/
theorem owner_of_size_le {a : Assembly α} {c : ConstraintId} (hc : a.constraints.size ≤ c) :
    (a.constraint c).owner = none := by
  have hdefault : a.constraint c = default := Table.get_of_size_le hc
  rw [hdefault]
  rfl

/-- Making a constraint registers nothing. -/
theorem sameRegistry_push (a : Assembly α) {k : Constraint α} (hk : k.owner = none) :
    SameRegistry a { a with constraints := a.constraints.push k } := by
  refine ⟨fun _ => rfl, fun c => ?_, fun c hc => ?_, ?_⟩
  · rw [constraint_push]
    split
    case isTrue hnew => rw [hk, owner_of_size_le (Nat.le_of_eq hnew.symm)]
    case isFalse => rfl
  · rw [constraint_push, if_neg (Nat.ne_of_lt hc)]
    exact ⟨rfl, rfl⟩
  · exact Nat.le_trans (Nat.le_succ _) (Nat.le_of_eq (Table.size_push ..).symm)

/-- Replacing a target registers nothing. -/
theorem sameRegistry_setConstraint {a : Assembly α} {c : ConstraintId} {k : Constraint α}
    (howner : k.owner = (a.constraint c).owner) (hid : k.id = (a.constraint c).id)
    (hshape : k.shape = (a.constraint c).shape) : SameRegistry a (a.setConstraint c k) := by
  refine ⟨fun _ => rfl, fun d => ?_, fun d _ => ?_, Table.size_le_set ..⟩
  · rw [constraint_setConstraint]
    split
    case isTrue hcd => rw [howner, hcd]
    case isFalse => rfl
  · rw [constraint_setConstraint]
    split
    case isTrue hcd => rw [← hcd]; exact ⟨hid, hshape⟩
    case isFalse => exact ⟨rfl, rfl⟩

/-- A new system has registered nothing, which is how its number read before. -/
theorem sameRegistry_newSystem (a : Assembly α) (k : ConfigId) :
    SameRegistry a { a with systems := a.systems.push ⟨k, [], [], []⟩ } := by
  refine ⟨fun s => ?_, fun _ => rfl, fun _ _ => ⟨rfl, rfl⟩, Nat.le_refl _⟩
  have hsystem : ({ a with systems := a.systems.push ⟨k, [], [], []⟩ } : Assembly α).system s =
      if s = a.systems.size then ⟨k, [], [], []⟩ else a.system s := Table.get_push ..
  rw [hsystem]
  split
  case isTrue hs =>
    have hold : a.system s = default := Table.get_of_size_le (Nat.le_of_eq hs.symm)
    rw [hold]
    rfl
  case isFalse => rfl

/-- Giving a system another configuration registers nothing. -/
theorem sameRegistry_setConfig (a : Assembly α) (s : SystemId) (k : ConfigId) :
    SameRegistry a (a.setSystem s { a.system s with config := k }) := by
  refine ⟨fun t => ?_, fun _ => rfl, fun _ _ => ⟨rfl, rfl⟩, Nat.le_refl _⟩
  rw [system_setSystem]
  split
  case isTrue hst => rw [hst]
  case isFalse => rfl

/-! ### Quiet operations -/

/-- From `a` to `b`, nothing is registered; new targets follow references of `refs`, and what is newly remembered is
what these or the references of stored targets find. -/
structure Quiet (refs : List Reference) (a b : Assembly α) : Prop extends SameRegistry a b where
  nextKey : a.nextKey ≤ b.nextKey
  cites : ∀ r, b.Cites r → a.Cites r ∨ r ∈ refs
  found : ∀ f ∈ b.found, f ∈ a.found ∨ ∃ r, (a.Cites r ∨ r ∈ refs) ∧ a.Finds r f

/-- Where constraints and memory are as they were, nothing is cited or remembered anew. -/
theorem SameRegistry.quiet {a b : Assembly α} {refs : List Reference} (h : SameRegistry a b)
    (hconstraints : b.constraints = a.constraints) (hfound : b.found = a.found) (hkey : a.nextKey ≤ b.nextKey) :
    Quiet refs a b := by
  refine ⟨h, hkey, fun r hr => Or.inl ?_, fun f hf => Or.inl (hfound ▸ hf)⟩
  unfold Cites constraint at hr ⊢
  rwa [hconstraints] at hr

theorem quiet_of_tables {a b : Assembly α} {refs : List Reference} (hsystems : b.systems = a.systems)
    (hconstraints : b.constraints = a.constraints) (hfound : b.found = a.found) (hkey : a.nextKey ≤ b.nextKey) :
    Quiet refs a b := (sameRegistry_of_tables hsystems hconstraints).quiet hconstraints hfound hkey

theorem Quiet.refl (refs : List Reference) (a : Assembly α) : Quiet refs a a :=
  quiet_of_tables rfl rfl rfl (Nat.le_refl _)

/-- Replacing or entering one constraint, the references of its targets are given or were stored before. -/
theorem SameRegistry.quiet_constraint {a b : Assembly α} {refs : List Reference} (h : SameRegistry a b)
    {c : ConstraintId} {k : Constraint α} (hconstraint : ∀ d, d ≠ c → b.constraint d = a.constraint d)
    (hk : b.constraint c = k)
    (hlength : Target.referencesOf k.lengthTarget ⊆ refs ∨ k.lengthTarget = (a.constraint c).lengthTarget)
    (hangle : Target.referencesOf k.angleTarget ⊆ refs ∨ k.angleTarget = (a.constraint c).angleTarget)
    (hfound : b.found = a.found) (hkey : a.nextKey ≤ b.nextKey) : Quiet refs a b := by
  refine ⟨h, hkey, fun r hr => ?_, fun f hf => Or.inl (hfound ▸ hf)⟩
  obtain ⟨d, hr⟩ := hr
  by_cases hdc : d = c
  · subst hdc
    rw [hk] at hr
    rcases hr with hr | hr
    · rcases hlength with hgiven | hstored
      · exact Or.inr (hgiven hr)
      · exact Or.inl ⟨d, Or.inl (hstored ▸ hr)⟩
    · rcases hangle with hgiven | hstored
      · exact Or.inr (hgiven hr)
      · exact Or.inl ⟨d, Or.inr (hstored ▸ hr)⟩
  · rw [hconstraint d hdc] at hr
    exact Or.inl ⟨d, hr⟩

/-- Replacing targets registers nothing and cites what is given. -/
theorem quiet_setConstraint {a : Assembly α} {c : ConstraintId} {k : Constraint α} {refs : List Reference}
    (howner : k.owner = (a.constraint c).owner) (hid : k.id = (a.constraint c).id)
    (hshape : k.shape = (a.constraint c).shape)
    (hlength : Target.referencesOf k.lengthTarget ⊆ refs ∨ k.lengthTarget = (a.constraint c).lengthTarget)
    (hangle : Target.referencesOf k.angleTarget ⊆ refs ∨ k.angleTarget = (a.constraint c).angleTarget) :
    Quiet refs a (a.setConstraint c k) := by
  refine (sameRegistry_setConstraint howner hid hshape).quiet_constraint (fun d hd => ?_) ?_ hlength hangle rfl
    (Nat.le_refl _)
  · rw [constraint_setConstraint, if_neg (Ne.symm hd)]
  · rw [constraint_setConstraint, if_pos rfl]

theorem Relaxed.quiet {a b : Assembly α} {refs : List Reference} (h : Relaxed a b) : Quiet refs a b := by
  refine ⟨h.sameRegistry, Nat.le_of_eq h.nextKey.symm, fun r hr => Or.inl ((h.cites r).mp hr), fun f hf => ?_⟩
  rcases h.recalls f hf with hf | ⟨r, hr, hf⟩
  · exact Or.inl hf
  · exact Or.inr ⟨r, Or.inl hr, hf⟩

/-- Reading a target remembers what its references find. -/
theorem Consulted.quiet {a b : Assembly α} {c : ConstraintId} {refs : List Reference} (h : Consulted c refs a b) :
    Quiet refs a b := by
  have hplan := h.samePlan
  refine ⟨hplan.sameRegistry, Nat.le_of_eq h.nextKey.symm, fun r hr => Or.inl ((hplan.cites r).mp hr), fun f hf => ?_⟩
  rcases h.finds hf with hf | ⟨r, hr, hfinds⟩
  · exact Or.inl hf
  · exact Or.inr ⟨r, Or.inr hr, hfinds⟩

variable [Scalar α]

/-- Making a constraint stores the targets that it is given, and registers nothing. -/
theorem quiet_push (a : Assembly α) {k : Constraint α} {ns : List NodeId} {length angle : Spec α}
    (hk : k.Fresh ns length angle) :
    Quiet (length.references ++ angle.references) a { a with constraints := a.constraints.push k } := by
  obtain ⟨now, hlength⟩ := hk.lengthTarget
  obtain ⟨now', hangle⟩ := hk.angleTarget
  refine (sameRegistry_push a hk.owner).quiet_constraint (c := a.constraints.size) (fun d hd => ?_) rfl ?_ ?_ rfl
    (Nat.le_refl _)
  · rw [constraint_push, if_neg hd]
  · rw [constraint_push, if_pos rfl]
    exact Or.inl (List.Subset.trans (Spec.references_settle hlength) (List.subset_append_left ..))
  · rw [constraint_push, if_pos rfl]
    exact Or.inl (List.Subset.trans (Spec.references_settle hangle) (List.subset_append_right ..))

end Assembly

namespace Act

open Assembly (Relaxed Quiet)

variable {refs : List Reference}

theorem Keeps.quiet {β : Type} {p : Act α β} (h : Keeps Relaxed p) : Keeps (Quiet refs) p := fun a =>
  (h a).mono fun _ _ hab => hab.quiet

theorem quiet_newConfig (cfg : Config α) : Keeps (Quiet refs) (newConfig cfg) := fun _ =>
  runs_read (runs_after_change (runs_pure (Assembly.quiet_of_tables rfl rfl rfl (Nat.le_refl _))))

theorem quiet_newSystem (config : Option ConfigId) : Keeps (α := α) (Quiet refs) (newSystem config) := by
  have hpush (a b : Assembly α) (k : ConfigId) (hsystems : b.systems = a.systems)
      (hconstraints : b.constraints = a.constraints) (hfound : b.found = a.found) (hkey : b.nextKey = a.nextKey) :
      Runs (do
        let s := (← assembly).systems.size
        change fun a => { a with systems := a.systems.push ⟨k, [], [], []⟩ }
        return s) b fun _ c => Quiet refs a c := by
    refine runs_read (runs_after_change (runs_pure ?_))
    refine Assembly.SameRegistry.quiet (trans_of _ (Assembly.sameRegistry_of_tables hsystems hconstraints)
      (Assembly.sameRegistry_newSystem b k)) hconstraints hfound (Nat.le_of_eq hkey.symm)
  intro a
  cases config with
  | some k => exact hpush a a k rfl rfl rfl rfl
  | none => exact runs_bind (runs_read (runs_read (runs_after_change (runs_pure (hpush a _ _ rfl rfl rfl rfl)))))

variable [Scalar α]

theorem quiet_evaluate (c : ConstraintId) (t : Target α) : Keeps (Quiet t.references) (evaluate c t) := fun a =>
  (runs_evaluate a c t).mono fun _ _ h => h.1.quiet

theorem quiet_make (recipe : Recipe α) : Keeps (Quiet refs) recipe.make := by
  refine fun a => (runs_make recipe a).mono fun r b h => ?_
  obtain ⟨k, -, hk⟩ := h
  rw [hk.after]
  exact Assembly.quiet_of_tables rfl rfl rfl (Nat.le_add_right ..)

theorem quiet_setLengthTarget (c : ConstraintId) (spec : Spec α) :
    Keeps (Quiet spec.references) (setLengthTarget c spec) := by
  refine fun a => runs_read ?_
  dsimp only
  split
  · exact runs_throw (.refl _ a)
  · refine runs_bind (runs_ofExcept ?_)
    cases hsettle : spec.settle (a.length c) with
    | error e => exact .refl _ a
    | ok target =>
      rw [then_ok]
      exact runs_change (Assembly.quiet_setConstraint rfl rfl rfl (Or.inl (Spec.references_settle hsettle))
        (Or.inr rfl))

theorem quiet_setAngleTarget (c : ConstraintId) (spec : Spec α) :
    Keeps (Quiet spec.references) (setAngleTarget c spec) := by
  refine fun a => runs_read (runs_bind (runs_ofExcept ?_))
  cases hsettle : spec.settle (.ok (a.angle c)) with
  | error e => exact .refl _ a
  | ok target =>
    rw [then_ok]
    exact runs_change (Assembly.quiet_setConstraint rfl rfl rfl (Or.inr rfl)
      (Or.inl (Spec.references_settle hsettle)))

theorem Makes.quiet {p : Act α ConstraintId} {a : Assembly α} {ns : List NodeId} {length angle : Spec α}
    (h : Makes p a ns length angle) : Runs p a fun _ b => Quiet (length.references ++ angle.references) a b := by
  refine Runs.mono h fun r b hrb => ?_
  rcases hrb with ⟨fault, -, rfl⟩ | ⟨k, hk, -, rfl⟩
  · exact .refl _ b
  · exact Assembly.quiet_push a hk

end Act

end Linkage
