import Linkage.Proofs.Writing
import Linkage.Target.Evaluation

/-!
# Linkage.Proofs.Consultation — what reading a target does and yields

`lookUp` follows a reference with no memory: it asks the owner's own system every time.  `valueOf` is the value of a
formula that looks its references up so.  Reading a target (`Act.formula`, `Act.evaluate`) changes nothing but the memory
of what references found and the count of readings, and remembers only what `lookUp` finds (`Consulted`); where the
memory is honest about the references of the target, the answer is `valueOf` (`runs_formula`).
-/

namespace Linkage

variable {α : Type}

/-- The references that a formula follows, in this order. -/
def Formula.references : Formula α → List Reference
  | .lengthOf r _ | .angleOf r _ | .around r _ _ | .obtuse r => [r]
  | .between r₁ r₂ _ => [r₁, r₂]
  | _ => []

/-- The references that a target follows. -/
def Target.references : Target α → List Reference
  | .fixed _ => []
  | .computed k => k.formula.references

/-- The references that a target follows, if there is one. -/
def Target.referencesOf : Option (Target α) → List Reference
  | some t => t.references
  | none => []

namespace Assembly

/-! ### Following references without a memory -/

section LookUp

/-- What the system of a constraint has registered under an identifier, or why that cannot be found. -/
def resolved (a : Assembly α) (c : ConstraintId) (ref : String) : Except (Fault α) ConstraintId :=
  match (a.constraint c).owner with
  | none => .error (.unregistered (a.constraint c).id ref)
  | some s =>
    match a.byId? s ref with
    | some found => .ok found
    | none => .error (.unknownReference (a.constraint c).id ref)

/-- The constraint that a reference stands for when `c` follows it, looked up in the system of `c`. -/
def lookUp (a : Assembly α) (c : ConstraintId) (r : Reference) : Except (Fault α) ConstraintId := do
  let found ← a.resolved c r.ref
  if (a.constraint found).shape.has r.quantity then return found
  else throw (.unreadable (a.constraint c).id r.ref r.quantity (a.constraint found).shape.kind)

theorem lookUp_of_resolved_error {a : Assembly α} {c : ConstraintId} {r : Reference} {e : Fault α}
    (h : a.resolved c r.ref = .error e) : a.lookUp c r = .error e := by
  unfold lookUp; rw [h]; rfl

theorem lookUp_of_resolved {a : Assembly α} {c d : ConstraintId} {r : Reference} (h : a.resolved c r.ref = .ok d) :
    a.lookUp c r = if (a.constraint d).shape.has r.quantity then .ok d
      else .error (.unreadable (a.constraint c).id r.ref r.quantity (a.constraint d).shape.kind) := by
  unfold lookUp; rw [h]; rfl

theorem lookUp_ok_iff {a : Assembly α} {c d : ConstraintId} {r : Reference} :
    a.lookUp c r = .ok d ↔
      ∃ s, (a.constraint c).owner = some s ∧ a.byId? s r.ref = some d ∧ (a.constraint d).shape.has r.quantity := by
  unfold lookUp resolved
  cases howner : (a.constraint c).owner with
  | none => simp [bind, Except.bind]
  | some s =>
    cases hid : a.byId? s r.ref with
    | none => simp [bind, Except.bind, hid]
    | some found =>
      simp only [bind, Except.bind, pure, Except.pure, hid, Option.some.injEq, exists_eq_left']
      split
      case isTrue hhas =>
        constructor
        · rintro ⟨⟩; exact ⟨rfl, hhas⟩
        · rintro ⟨rfl, -⟩; rfl
      case isFalse hhas =>
        refine ⟨fun h => (nomatch h), ?_⟩
        rintro ⟨rfl, h⟩
        exact absurd h hhas

variable [Scalar α]

def lengthThrough (a : Assembly α) (c : ConstraintId) (r : Reference) : Except (Fault α) α := do
  a.length (← a.lookUp c r)

def angleThrough (a : Assembly α) (c : ConstraintId) (r : Reference) : Except (Fault α) α :=
  return a.angle (← a.lookUp c r)

/-- An angle kept at a quarter turn or more from the angle `w`, on the side where it is. -/
def keptObtuse (angle w : α) : α :=
  let gap := Scalar.wrap (angle - w)
  if 0 ≤ gap then Scalar.clamp gap Scalar.quarterTurn Scalar.pi + w
  else Scalar.clamp gap (-Scalar.pi) (-Scalar.quarterTurn) + w

/-- The value of a formula for the constraint that owns it, every reference looked up anew. -/
def valueOf (a : Assembly α) (c : ConstraintId) : Formula α → Except (Fault α) α
  | .ownLengthMin least => return Scalar.max (← a.length c) least
  | .ownLengthMax most => return Scalar.min (← a.length c) most
  | .ownLengthRange least most => return Scalar.clamp (← a.length c) least most
  | .lengthOf r factor => return (← a.lengthThrough c r) * factor
  | .ownAngleMin least => return Scalar.max (a.angle c) least
  | .ownAngleMax most => return Scalar.min (a.angle c) most
  | .ownAngleRange least most => return Scalar.clamp (a.angle c) least most
  | .angleOf r offset => return Scalar.wrap ((← a.angleThrough c r) + offset)
  | .around r least most => do
    let w ← a.angleThrough c r
    return Scalar.clamp (Scalar.wrap (a.angle c - w)) least most + w
  | .obtuse r => return keptObtuse (a.angle c) (← a.angleThrough c r)
  | .between r₁ r₂ scale => do
    let w₁ ← a.angleThrough c r₁
    let w₂ ← a.angleThrough c r₂
    return w₁ + scale * Scalar.wrap (w₂ - w₁)
  | .callable read => read ⟨a.node, (a.constraint c).shape, a.readings⟩

/-- The value of a target for the constraint that owns it, every reference looked up anew. -/
def targetValue (a : Assembly α) (c : ConstraintId) : Target α → Except (Fault α) α
  | .fixed x => .ok x
  | .computed k => a.valueOf c k.formula

/-- The value of a target, if there is one, every reference looked up anew. -/
def wanted (a : Assembly α) (c : ConstraintId) : Option (Target α) → Except (Fault α) (Option α)
  | some t => some <$> a.targetValue c t
  | none => .ok none

end LookUp

/-! ### What reading leaves alone -/

/-- `b` has the constraints, systems and configurations of `a`, and has given out the same keys. -/
structure SameDesign (a b : Assembly α) : Prop where
  constraints : b.constraints = a.constraints
  systems : b.systems = a.systems
  configs : b.configs = a.configs
  ambient : b.ambient = a.ambient
  nextKey : b.nextKey = a.nextKey

namespace SameDesign

variable {a b c : Assembly α}

theorem refl (a : Assembly α) : SameDesign a a := ⟨rfl, rfl, rfl, rfl, rfl⟩

theorem trans (h : SameDesign a b) (h' : SameDesign b c) : SameDesign a c :=
  ⟨h'.constraints.trans h.constraints, h'.systems.trans h.systems, h'.configs.trans h.configs,
    h'.ambient.trans h.ambient, h'.nextKey.trans h.nextKey⟩

theorem constraint (h : SameDesign a b) (d : ConstraintId) : b.constraint d = a.constraint d := by
  unfold Assembly.constraint; rw [h.constraints]

theorem system (h : SameDesign a b) (s : SystemId) : b.system s = a.system s := by
  unfold Assembly.system; rw [h.systems]

theorem byId? (h : SameDesign a b) (s : SystemId) (id : String) : b.byId? s id = a.byId? s id := by
  unfold Assembly.byId?; rw [h.system]

theorem lookUp (h : SameDesign a b) (d : ConstraintId) (r : Reference) : b.lookUp d r = a.lookUp d r := by
  unfold Assembly.lookUp Assembly.resolved; simp only [h.constraint, h.byId?]

end SameDesign

/-- `b` is `a` after `c` has read targets that follow the references `refs`: only the memory and the count of readings
may differ, and what is newly remembered is what looking the reference up finds. -/
structure Consulted (c : ConstraintId) (refs : List Reference) (a b : Assembly α) : Prop extends SameDesign a b where
  nodes : b.nodes = a.nodes
  found : ∃ new, b.found = new ++ a.found ∧ ∀ f ∈ new, ∃ r ∈ refs,
    f.key = r.key ∧ (a.constraint c).owner = some f.system ∧ a.lookUp c r = .ok f.constraint

namespace Consulted

variable {a b d : Assembly α} {c : ConstraintId} {refs refs' : List Reference}

theorem refl (a : Assembly α) : Consulted c refs a a := ⟨.refl a, .refl _, [], by simp⟩

theorem trans (h : Consulted c refs a b) (h' : Consulted c refs b d) : Consulted c refs a d := by
  obtain ⟨new, hnew, hsound⟩ := h.found
  obtain ⟨new', hnew', hsound'⟩ := h'.found
  refine ⟨h.toSameDesign.trans h'.toSameDesign, h'.nodes.trans h.nodes, new' ++ new,
    by rw [hnew', hnew, List.append_assoc], fun f hf => ?_⟩
  rcases List.mem_append.mp hf with hf | hf
  · obtain ⟨r, hr, hkey, howner, hfound⟩ := hsound' f hf
    exact ⟨r, hr, hkey, h.constraint c ▸ howner, (h.lookUp c r).symm.trans hfound⟩
  · exact hsound f hf

theorem mono (h : Consulted c refs a b) (hrefs : refs ⊆ refs') : Consulted c refs' a b := by
  obtain ⟨new, hnew, hsound⟩ := h.found
  refine ⟨h.toSameDesign, h.nodes, new, hnew, fun f hf => ?_⟩
  obtain ⟨r, hr, hf⟩ := hsound f hf
  exact ⟨r, hrefs hr, hf⟩

/-- The memory of a key is as before, unless some reference of that key was found. -/
theorem remembered?_eq (h : Consulted c refs a b) {key : Nat}
    (hmissed : ∀ r ∈ refs, r.key = key → ∀ d, a.lookUp c r ≠ .ok d) (s : SystemId) :
    b.remembered? key s = a.remembered? key s := by
  obtain ⟨new, hnew, hsound⟩ := h.found
  have hnone : new.find? (fun f => f.key == key && f.system == s) = none := by
    rw [List.find?_eq_none]
    intro f hf hmatch
    obtain ⟨r, hr, hkey, -, hfound⟩ := hsound f hf
    simp only [Bool.and_eq_true, beq_iff_eq] at hmatch
    exact hmissed r hr (hkey.symm.trans hmatch.1) _ hfound
  unfold remembered?
  rw [hnew, List.find?_append, hnone, Option.none_or]

variable [Scalar α]

theorem node (h : Consulted c refs a b) (n : NodeId) : b.node n = a.node n := by
  unfold Assembly.node; rw [h.nodes]

theorem length (h : Consulted c refs a b) (e : ConstraintId) : b.length e = a.length e := by
  unfold Assembly.length; rw [h.constraint, show b.node = a.node from funext h.node]

theorem angle (h : Consulted c refs a b) (e : ConstraintId) : b.angle e = a.angle e := by
  unfold Assembly.angle; rw [h.constraint, show b.node = a.node from funext h.node]

theorem angleThrough (h : Consulted c refs a b) (e : ConstraintId) (r : Reference) :
    b.angleThrough e r = a.angleThrough e r := by
  unfold Assembly.angleThrough; rw [h.lookUp, show b.angle = a.angle from funext h.angle]

end Consulted

/-! ### Honest memories -/

/-- What the owner of a target remembers of a reference, in the system that it belongs to. -/
def recollected? (a : Assembly α) (c : ConstraintId) (r : Reference) : Option ConstraintId :=
  (a.constraint c).owner.bind fun s => a.remembered? r.key s

/-- What `c` remembers of a reference is what it would find. -/
def Honest (a : Assembly α) (c : ConstraintId) (r : Reference) : Prop :=
  ∀ d, a.recollected? c r = some d → a.lookUp c r = .ok d

/-- Honesty survives reading, if the references read do not share a key with another. -/
theorem Honest.consulted {a b : Assembly α} {c : ConstraintId} {r : Reference} {refs : List Reference}
    (hr : a.Honest c r) (h : Consulted c refs a b) (hkeys : ∀ r' ∈ refs, r'.key = r.key → r' = r) : b.Honest c r := by
  intro d hd
  rw [h.lookUp]
  obtain ⟨new, hnew, hsound⟩ := h.found
  unfold recollected? remembered? at hd
  rw [h.constraint, Option.bind_eq_some_iff] at hd
  obtain ⟨s, howner, hd⟩ := hd
  rw [hnew, List.find?_append, Option.map_eq_some_iff] at hd
  obtain ⟨f, hf, rfl⟩ := hd
  -- what is found is either an older memory, for which honesty is assumed, or a new one, which was sound when made
  cases hfind : new.find? (fun f => f.key == r.key && f.system == s) with
  | none =>
    rw [hfind, Option.none_or] at hf
    apply hr
    unfold recollected? remembered?
    rw [howner, Option.bind_some, hf, Option.map_some]
  | some g =>
    rw [hfind, Option.some_or, Option.some.injEq] at hf
    subst hf
    obtain ⟨r', hr', hkey, -, hfound⟩ := hsound g (List.mem_of_find?_eq_some hfind)
    have hmatch := List.find?_some hfind
    simp only [Bool.and_eq_true, beq_iff_eq] at hmatch
    rwa [hkeys r' hr' (hkey.symm.trans hmatch.1)] at hfound

end Assembly

namespace Act

open Assembly (Consulted Honest)

variable [Scalar α] {a : Assembly α} {c : ConstraintId}

/-! ### What the readers do -/

theorem runs_byId? {s : SystemId} {id : Option String} {Q : Except (Fault α) (Option ConstraintId) → Assembly α → Prop}
    (h : Q (.ok (id.bind (a.byId? s))) a) : Runs (byId? s id) a Q :=
  runs_traced (runs_read (runs_pure h)) (writable_byId? id)

theorem runs_resolve {ref : String} {Q : Except (Fault α) ConstraintId → Assembly α → Prop}
    (h : Q (a.resolved c ref) a) : Runs (resolve c ref) a Q := by
  unfold Assembly.resolved at h
  refine runs_read ?_
  cases howner : (a.constraint c).owner with
  | none =>
    simp only [howner] at h ⊢
    exact runs_throw h
  | some s =>
    simp only [howner] at h ⊢
    refine runs_bind (runs_byId? ?_)
    cases hid : a.byId? s ref with
    | none =>
      simp only [hid, then_ok, Option.bind_some] at h ⊢
      exact runs_throw h
    | some found =>
      simp only [hid, then_ok, Option.bind_some] at h ⊢
      exact runs_pure h

/-- A reference is followed to what is remembered of it, or else to what is looked up, which is then remembered. -/
theorem runs_follow (a : Assembly α) (c : ConstraintId) (r : Reference) :
    Runs (follow r c) a fun res b => Consulted c [r] a b ∧ (a.Honest c r → res = a.lookUp c r) := by
  refine runs_read ?_
  cases hrecall : (a.constraint c).owner.bind fun s => a.remembered? r.key s with
  -- what is remembered is taken for granted, hence right only under honesty
  | some d =>
    simp only [hrecall]
    exact runs_pure ⟨.refl a, fun hhonest => (hhonest d hrecall).symm⟩
  | none =>
    simp only [hrecall]
    refine runs_bind (runs_resolve ?_)
    cases hresolved : a.resolved c r.ref with
    | error e => exact ⟨.refl a, fun _ => (Assembly.lookUp_of_resolved_error hresolved).symm⟩
    | ok d =>
      rw [then_ok]
      refine runs_read ?_
      have hlookUp := Assembly.lookUp_of_resolved hresolved
      by_cases hhas : (a.constraint d).shape.has r.quantity
      · rw [if_pos hhas] at hlookUp
        obtain ⟨s, howner, -⟩ := Assembly.lookUp_ok_iff.mp hlookUp
        simp only [hhas, if_true, howner]
        refine runs_after_change (runs_after_report (runs_pure ⟨?_, fun _ => hlookUp.symm⟩))
        refine ⟨⟨rfl, rfl, rfl, rfl, rfl⟩, rfl, [⟨r.key, s, d⟩], rfl, fun f hf => ?_⟩
        obtain rfl := List.mem_singleton.mp hf
        exact ⟨r, List.mem_singleton_self r, rfl, howner, hlookUp⟩
      · rw [if_neg hhas] at hlookUp
        simp only [hhas]
        exact runs_throw ⟨.refl a, fun _ => hlookUp.symm⟩

theorem runs_ownLength {Q : Except (Fault α) α → Assembly α → Prop} (h : Q (a.length c) a) :
    Runs (ownLength c) a Q := runs_read (runs_ofExcept h)

theorem runs_ownAngle {Q : Except (Fault α) α → Assembly α → Prop} (h : Q (.ok (a.angle c)) a) :
    Runs (ownAngle c) a Q := runs_read (runs_pure h)

theorem runs_lengthAt (a : Assembly α) (c : ConstraintId) (r : Reference) :
    Runs (lengthAt r c) a fun res b => Consulted c [r] a b ∧ (a.Honest c r → res = a.lengthThrough c r) := by
  refine runs_bind ((runs_follow a c r).mono fun res b h => ?_)
  cases res with
  | error e => exact ⟨h.1, fun hr => by unfold Assembly.lengthThrough; rw [← h.2 hr]; rfl⟩
  | ok d =>
    rw [then_ok]
    refine runs_ownLength ⟨h.1, fun hr => ?_⟩
    unfold Assembly.lengthThrough
    rw [← h.2 hr, h.1.length]
    rfl

theorem runs_angleAt (a : Assembly α) (c : ConstraintId) (r : Reference) :
    Runs (angleAt r c) a fun res b => Consulted c [r] a b ∧ (a.Honest c r → res = a.angleThrough c r) := by
  refine runs_bind ((runs_follow a c r).mono fun res b h => ?_)
  cases res with
  | error e => exact ⟨h.1, fun hr => by unfold Assembly.angleThrough; rw [← h.2 hr]; rfl⟩
  | ok d =>
    rw [then_ok]
    refine runs_ownAngle ⟨h.1, fun hr => ?_⟩
    unfold Assembly.angleThrough
    rw [← h.2 hr, h.1.angle]
    rfl

/-! ### What formulas and targets do -/

/-- References that share a key are one reference. -/
def Apart (refs : List Reference) : Prop := ∀ r ∈ refs, ∀ r' ∈ refs, r'.key = r.key → r' = r

/-- An angle is followed first, and the rest reads the owner's own angle at most. -/
theorem runs_angleAt_bind {r : Reference} {f : α → Act α α} {g : α → α} (hf : ∀ (w : α) (b : Assembly α),
    b.angle c = a.angle c → Runs (f w) b fun res b' => b' = b ∧ res = .ok (g w)) :
    Runs (angleAt r c >>= f) a fun res b =>
      Consulted c [r] a b ∧ (a.Honest c r → res = g <$> a.angleThrough c r) := by
  refine runs_bind ((runs_angleAt a c r).mono fun res b h => ?_)
  cases res with
  | error e => exact ⟨h.1, fun hr => by rw [← h.2 hr]; rfl⟩
  | ok w =>
    rw [then_ok]
    refine (hf w b (h.1.angle c)).mono ?_
    rintro _ _ ⟨rfl, rfl⟩
    exact ⟨h.1, fun hr => by rw [← h.2 hr]; rfl⟩

/-- Two angles are followed one after the other. -/
theorem runs_twoAngles (a : Assembly α) (c : ConstraintId) (r₁ r₂ : Reference) (g : α → α → α) :
    Runs (do
      let w₁ ← angleAt r₁ c
      let w₂ ← angleAt r₂ c
      return g w₁ w₂) a fun res b => Consulted c [r₁, r₂] a b ∧
        (Apart [r₁, r₂] → (∀ r ∈ [r₁, r₂], a.Honest c r) → res = do
          let w₁ ← a.angleThrough c r₁
          let w₂ ← a.angleThrough c r₂
          return g w₁ w₂) := by
  refine runs_bind ((runs_angleAt a c r₁).mono fun res b h => ?_)
  have hsub₁ : [r₁] ⊆ [r₁, r₂] := by simp
  have hsub₂ : [r₂] ⊆ [r₁, r₂] := by simp
  cases res with
  | error e =>
    refine ⟨h.1.mono hsub₁, fun _ hr => ?_⟩
    rw [← h.2 (hr r₁ (hsub₁ (List.mem_singleton_self r₁)))]
    rfl
  | ok w₁ =>
    rw [then_ok]
    refine runs_bind_pure ((runs_angleAt b c r₂).mono fun res' b' h' => ?_)
    refine ⟨(h.1.mono hsub₁).trans (h'.1.mono hsub₂), fun hapart hr => ?_⟩
    have hr₁ := hr r₁ (hsub₁ (List.mem_singleton_self r₁))
    have hr₂ := hr r₂ (hsub₂ (List.mem_singleton_self r₂))
    -- what the first reference left in the memory is not taken for the second
    have hhonest : b.Honest c r₂ := hr₂.consulted h.1 fun r' hr' hkey =>
      hapart r₂ (hsub₂ (List.mem_singleton_self r₂)) r' (hsub₁ hr') hkey
    rw [h'.2 hhonest, h.1.angleThrough, ← h.2 hr₁]
    cases a.angleThrough c r₂ with
    | ok w₂ => rfl
    | error e => rfl

/-- Reading a formula consults its references only, and where the memory is honest about them the answer is the one
that no memory would change. -/
theorem runs_formula (a : Assembly α) (c : ConstraintId) (f : Formula α) :
    Runs (formula c f) a fun res b => Consulted c f.references a b ∧
      (Apart f.references → (∀ r ∈ f.references, a.Honest c r) → res = a.valueOf c f) := by
  cases f with
  | ownLengthMin least =>
    exact runs_bind_pure (runs_ownLength ⟨.refl a, fun _ _ => by simp [Assembly.valueOf]⟩)
  | ownLengthMax most =>
    exact runs_bind_pure (runs_ownLength ⟨.refl a, fun _ _ => by simp [Assembly.valueOf]⟩)
  | ownLengthRange least most =>
    exact runs_bind_pure (runs_ownLength ⟨.refl a, fun _ _ => by simp [Assembly.valueOf]⟩)
  | ownAngleMin least => exact runs_bind_pure (runs_ownAngle ⟨.refl a, fun _ _ => rfl⟩)
  | ownAngleMax most => exact runs_bind_pure (runs_ownAngle ⟨.refl a, fun _ _ => rfl⟩)
  | ownAngleRange least most => exact runs_bind_pure (runs_ownAngle ⟨.refl a, fun _ _ => rfl⟩)
  | lengthOf r factor =>
    refine runs_bind_pure ((runs_lengthAt a c r).mono fun res b h => ⟨h.1, fun _ hr => ?_⟩)
    rw [h.2 (hr r (List.mem_singleton_self r))]
    simp [Assembly.valueOf]
  | angleOf r offset =>
    refine runs_bind_pure ((runs_angleAt a c r).mono fun res b h => ⟨h.1, fun _ hr => ?_⟩)
    rw [h.2 (hr r (List.mem_singleton_self r))]
    simp [Assembly.valueOf]
  | around r least most =>
    refine (runs_angleAt_bind (g := fun w => Scalar.clamp (Scalar.wrap (a.angle c - w)) least most + w)
      fun w b hangle => runs_bind_pure (runs_ownAngle ⟨rfl, by rw [hangle]; rfl⟩)).mono
      fun res b h => ⟨h.1, fun _ hr => ?_⟩
    rw [h.2 (hr r (List.mem_singleton_self r))]
    simp [Assembly.valueOf]
  | obtuse r =>
    refine (runs_angleAt_bind (g := Assembly.keptObtuse (a.angle c))
      fun w b hangle => runs_bind (runs_ownAngle ?_)).mono fun res b h => ⟨h.1, fun _ hr => ?_⟩
    · rw [then_ok, hangle]
      dsimp only [Assembly.keptObtuse]
      split
      · exact runs_pure ⟨rfl, rfl⟩
      · exact runs_pure ⟨rfl, rfl⟩
    · rw [h.2 (hr r (List.mem_singleton_self r))]
      simp [Assembly.valueOf]
  | between r₁ r₂ scale =>
    exact runs_twoAngles a c r₁ r₂ fun w₁ w₂ => w₁ + scale * Scalar.wrap (w₂ - w₁)
  | callable read =>
    refine runs_read (runs_after_change (runs_ofExcept ⟨?_, fun _ _ => rfl⟩))
    exact ⟨⟨rfl, rfl, rfl, rfl, rfl⟩, rfl, [], rfl, fun f hf => absurd hf List.not_mem_nil⟩

/-- Reading a target is reading its formula, if it has one. -/
theorem runs_evaluate (a : Assembly α) (c : ConstraintId) (t : Target α) :
    Runs (evaluate c t) a fun res b => Consulted c t.references a b ∧
      (Apart t.references → (∀ r ∈ t.references, a.Honest c r) → res = a.targetValue c t) := by
  cases t with
  | fixed x => exact runs_pure ⟨.refl a, fun _ _ => rfl⟩
  | computed k => exact runs_formula a c k.formula

/-- Reading a target that may be missing. -/
theorem runs_optional (a : Assembly α) (c : ConstraintId) (t? : Option (Target α)) :
    Runs (match t? with
      | some t => return some (← evaluate c t)
      | none => return none) a fun res b => Consulted c (Target.referencesOf t?) a b ∧
        (Apart (Target.referencesOf t?) → (∀ r ∈ Target.referencesOf t?, a.Honest c r) → res = a.wanted c t?) := by
  cases t? with
  | none => exact runs_pure ⟨.refl a, fun _ _ => rfl⟩
  | some t =>
    refine runs_bind_pure ((runs_evaluate a c t).mono fun res b h => ⟨h.1, fun hapart hr => ?_⟩)
    rw [h.2 hapart hr]
    rfl

theorem runs_targetLength (a : Assembly α) (c : ConstraintId) :
    Runs (targetLength c) a fun res b => Consulted c (Target.referencesOf (a.constraint c).lengthTarget) a b ∧
      (Apart (Target.referencesOf (a.constraint c).lengthTarget) →
        (∀ r ∈ Target.referencesOf (a.constraint c).lengthTarget, a.Honest c r) →
        res = a.wanted c (a.constraint c).lengthTarget) :=
  runs_read (runs_optional a c (a.constraint c).lengthTarget)

theorem runs_targetAngle (a : Assembly α) (c : ConstraintId) :
    Runs (targetAngle c) a fun res b => Consulted c (Target.referencesOf (a.constraint c).angleTarget) a b ∧
      (Apart (Target.referencesOf (a.constraint c).angleTarget) →
        (∀ r ∈ Target.referencesOf (a.constraint c).angleTarget, a.Honest c r) →
        res = a.wanted c (a.constraint c).angleTarget) :=
  runs_read (runs_optional a c (a.constraint c).angleTarget)

end Act

end Linkage
