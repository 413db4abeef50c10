import Linkage.Config.Standard
import Linkage.Proofs.Registry
import Mathlib.Tactic.Set

/-!
# Linkage.Proofs.Memory — what references remember never shows

In a run whose operations are given no references but those that factories made (`Genuine`), everything remembered is
what some made reference finds in the registry now (`Coherent`): keys of made references differ, an identifier that
stands for a constraint never stands for another one, and owners do not change.  So every evaluation answers as if it
had no memory, whichever systems share a computed target, and one that failed is as good as one never made
(`run_memoryLaws`).
-/

namespace Linkage

variable {α : Type}

namespace Assembly

open Act (Apart)

/-! ### Coherent memories -/

/-- The registry is consistent, the references made so far differ by key, and every reference of a stored target and
everything remembered comes from one of them. -/
structure Coherent (made : List Reference) (a : Assembly α) : Prop where
  consistent : Consistent a
  used : ∀ r ∈ made, r.key < a.nextKey
  apart : Apart made
  cites : ∀ r, a.Cites r → r ∈ made
  found : ∀ f ∈ a.found, ∃ r ∈ made, a.Finds r f

theorem coherent_empty [Scalar α] (ambient : Config α) : Coherent [] (Assembly.empty ambient) := by
  refine ⟨consistent_empty ambient, fun r hr => absurd hr List.not_mem_nil, fun r hr => absurd hr List.not_mem_nil,
    fun r hr => ?_, fun f hf => absurd hf List.not_mem_nil⟩
  -- a constraint that was never made has no targets
  obtain ⟨c, hr | hr⟩ := hr
  · exact hr
  · exact hr

theorem remembered?_eq_some {a : Assembly α} {key : Nat} {s : SystemId} {d : ConstraintId}
    (h : a.remembered? key s = some d) : ∃ f ∈ a.found, f.key = key ∧ f.system = s ∧ f.constraint = d := by
  unfold remembered? at h
  obtain ⟨f, hf, rfl⟩ := Option.map_eq_some_iff.mp h
  have hmatch := List.find?_some hf
  simp only [Bool.and_eq_true, beq_iff_eq] at hmatch
  exact ⟨f, List.mem_of_find?_eq_some hf, hmatch.1, hmatch.2, rfl⟩

variable {a b : Assembly α} {made refs : List Reference}

/-- What is remembered for a system is registered with it. -/
theorem Coherent.registered (h : Coherent made a) {key : Nat} {s : SystemId} {d : ConstraintId}
    (hd : a.remembered? key s = some d) : d ∈ (a.system s).constraints := by
  obtain ⟨f, hf, -, rfl, rfl⟩ := remembered?_eq_some hd
  obtain ⟨r, -, -, hid, -⟩ := h.found f hf
  exact ((h.consistent.byId?_iff ..).mp hid).1

/-- A coherent memory is honest about every reference that was made. -/
theorem Coherent.honest (h : Coherent made a) {r : Reference} (hr : r ∈ made) (c : ConstraintId) : a.Honest c r := by
  intro d hd
  obtain ⟨s, howner, hd⟩ := Option.bind_eq_some_iff.mp hd
  obtain ⟨f, hf, hkey, rfl, rfl⟩ := remembered?_eq_some hd
  obtain ⟨r', hr', hkey', hid, hhas⟩ := h.found f hf
  obtain rfl := h.apart r hr r' hr' (hkey'.symm.trans hkey)
  exact lookUp_ok_iff.mpr ⟨f.system, howner, hid, hhas⟩

/-- The references of a stored target do not share keys, and the memory is honest about them. -/
theorem Coherent.stored (h : Coherent made a) {c : ConstraintId} {t? : Option (Target α)}
    (ht : ∀ r ∈ Target.referencesOf t?, a.Cites r) :
    Apart (Target.referencesOf t?) ∧ ∀ r ∈ Target.referencesOf t?, a.Honest c r := by
  constructor
  · intro r hr r' hr' hkey
    exact h.apart r (h.cites r (ht r hr)) r' (h.cites r' (ht r' hr')) hkey
  · intro r hr
    exact h.honest (h.cites r (ht r hr)) c

/-- Nothing is remembered of a reference that finds nothing, in the system where it finds nothing. -/
theorem Coherent.forgotten (h : Coherent made a) {c : ConstraintId} {r : Reference} (hr : r ∈ made)
    (hmissed : ∀ d, a.lookUp c r ≠ .ok d) {s : SystemId} (howner : (a.constraint c).owner = some s) :
    a.remembered? r.key s = none := by
  cases hrecall : a.remembered? r.key s with
  | none => rfl
  | some d =>
    have hrecollected : a.recollected? c r = some d := by
      unfold recollected?
      rw [howner]
      exact hrecall
    exact absurd (h.honest hr c d hrecollected) (hmissed d)

/-- What a reference finds it goes on to find: identifiers are never rebound and shapes never change. -/
theorem Finds.grows {r : Reference} {f : Found} (hf : a.Finds r f) (h : Consistent a) (hab : Grows a b) :
    b.Finds r f := by
  obtain ⟨hkey, hid, hhas⟩ := hf
  have hregistered := ((h.byId?_iff ..).mp hid).1
  refine ⟨hkey, hab.byId? _ _ _ hid, ?_⟩
  rw [hab.shape _ (h.made _ _ hregistered)]
  exact hhas

/-! ### One operation -/

namespace Registration

variable {ns : SystemId → List NodeId}

/-- Registering leaves targets and memory alone, so only what is quiet has a part in them. -/
theorem quiet_part (hab : Registration refs a b ns) : ∃ a', Quiet refs a a' ∧ (∀ r, b.Cites r → a'.Cites r) ∧
    b.found = a'.found ∧ b.nextKey = a'.nextKey := by
  cases hab with
  | nothing quiet _ => exact ⟨b, quiet, fun _ hr => hr, rfl, rfl⟩
  | node a' s n quiet listed _ =>
    subst listed
    have hsame := sameObjects_enlist a' s n
    refine ⟨a', quiet, fun r hr => ?_, hsame.found, hsame.nextKey⟩
    obtain ⟨c, hr⟩ := hr
    rw [hsame.constraint] at hr
    exact ⟨c, hr⟩
  | constraint a' s c quiet _ joined _ =>
    subst joined
    refine ⟨a', quiet, fun r hr => ?_, found_join .., nextKey_join ..⟩
    obtain ⟨d, hr⟩ := hr
    rw [constraint_join] at hr
    split at hr
    · exact ⟨c, hr⟩
    · exact ⟨d, hr⟩

/-- An operation that is given references made before keeps the memory coherent. -/
theorem coherent (hab : Registration refs a b ns) (h : Coherent made a) (hrefs : refs ⊆ made) : Coherent made b := by
  obtain ⟨a', hquiet, hcites, hfound, hkey⟩ := hab.quiet_part
  refine ⟨hab.consistent h.consistent, fun r hr => ?_, h.apart, fun r hr => ?_, fun f hf => ?_⟩
  · have hused := h.used r hr
    have := hquiet.nextKey
    omega
  · rcases hquiet.cites r (hcites r hr) with hr | hr
    · exact h.cites r hr
    · exact hrefs hr
  -- what was remembered stays right because identifiers are never taken away, and what is new was right when found
  · rw [hfound] at hf
    rcases hquiet.found f hf with hf | ⟨r, hr, hf⟩
    · obtain ⟨r, hr, hf⟩ := h.found f hf
      exact ⟨r, hr, hf.grows h.consistent hab.grows⟩
    · refine ⟨r, ?_, hf.grows h.consistent hab.grows⟩
      rcases hr with hr | hr
      · exact h.cites r hr
      · exact hrefs hr

end Registration

/-- New references have keys of their own, so the memory is as coherent as it was. -/
theorem Coherent.make (h : Coherent made a) {k : Combinator α} (hk : k.New a b) :
    Coherent (made ++ k.formula.references) b := by
  rw [hk.after]
  refine ⟨h.consistent.sameRegistry (sameRegistry_of_tables rfl rfl), fun r hr => ?_, fun r hr r' hr' heq => ?_,
    fun r hr => List.mem_append_left _ (h.cites r hr), fun f hf => ?_⟩
  -- keys that are in use are below the next one, and those of new references are not
  · rcases List.mem_append.mp hr with hr | hr
    · exact Nat.lt_of_lt_of_le (h.used r hr) (Nat.le_add_right ..)
    · exact (hk.key_mem hr).2
  · rcases List.mem_append.mp hr with hr | hr
    · rcases List.mem_append.mp hr' with hr' | hr'
      · exact h.apart r hr r' hr' heq
      · have := h.used r hr
        have := (hk.key_mem hr').1
        omega
    · rcases List.mem_append.mp hr' with hr' | hr'
      · have := h.used r' hr'
        have := (hk.key_mem hr).1
        omega
      · exact hk.apart r hr r' hr' heq
  · obtain ⟨r, hr, hf⟩ := h.found f hf
    exact ⟨r, List.mem_append_left _ hr, hf⟩

variable [Scalar α]

theorem angleThrough_ok {c d : ConstraintId} {r : Reference} (hd : a.lookUp c r = .ok d) :
    a.angleThrough c r = .ok (a.angle d) := by
  unfold angleThrough
  rw [hd]
  rfl

/-- A reference that asks for a length finds nothing but what has one. -/
theorem lengthThrough_ok {c d : ConstraintId} {r : Reference} (hr : r.quantity = .length)
    (hd : a.lookUp c r = .ok d) : ∃ x, a.lengthThrough c r = .ok x := by
  obtain ⟨s, -, -, hhas⟩ := lookUp_ok_iff.mp hd
  rw [hr] at hhas
  have hlength : ∃ x, a.length d = .ok x := by
    unfold length
    cases hshape : (a.constraint d).shape with
    | pair first second direction => exact ⟨_, rfl⟩
    | triple apex ray arm =>
      rw [hshape] at hhas
      exact nomatch hhas
  obtain ⟨x, hx⟩ := hlength
  refine ⟨x, ?_⟩
  unfold lengthThrough
  rw [hd]
  exact hx

/-- A fitting formula that follows references has a value where they all find something. -/
theorem valueOf_ok {c : ConstraintId} {f : Formula α} (hf : f.Fitting) (hrefs : f.references ≠ [])
    (hfound : ∀ r ∈ f.references, ∃ d, a.lookUp c r = .ok d) : ∃ x, a.valueOf c f = .ok x := by
  have hangle (r : Reference) (hr : r ∈ f.references) : ∃ w, a.angleThrough c r = .ok w := by
    obtain ⟨d, hd⟩ := hfound r hr
    exact ⟨a.angle d, angleThrough_ok hd⟩
  cases f with
  | lengthOf r factor =>
    obtain ⟨d, hd⟩ := hfound r (List.mem_singleton_self r)
    obtain ⟨x, hx⟩ := lengthThrough_ok hf hd
    exact ⟨x * factor, by simp [valueOf, hx]⟩
  | angleOf r offset =>
    obtain ⟨w, hw⟩ := hangle r (List.mem_singleton_self r)
    exact ⟨_, by simp [valueOf, hw]; rfl⟩
  | around r least most =>
    obtain ⟨w, hw⟩ := hangle r (List.mem_singleton_self r)
    exact ⟨_, by simp [valueOf, hw]; rfl⟩
  | obtuse r =>
    obtain ⟨w, hw⟩ := hangle r (List.mem_singleton_self r)
    exact ⟨_, by simp [valueOf, hw]; rfl⟩
  | between r₁ r₂ scale =>
    obtain ⟨w₁, hw₁⟩ := hangle r₁ (by simp [Formula.references])
    obtain ⟨w₂, hw₂⟩ := hangle r₂ (by simp [Formula.references])
    exact ⟨_, by simp [valueOf, hw₁, hw₂]; rfl⟩
  | _ => exact absurd rfl hrefs

end Assembly

open Assembly (Coherent)

/-- The references of computed targets. -/
def referencesOf (ks : List (Combinator α)) : List Reference := ks.flatMap fun k => k.formula.references

variable [Scalar α]

namespace Operation

/-- The computed target that an operation makes, if it is a factory. -/
def makes (st : Session α) : Operation α → List (Combinator α)
  | .make recipe =>
    match recipe.make.answer st with
    | .ok k => [k]
    | .error _ => []
  | _ => []

/-- An operation makes one computed target with new references, and does nothing else, or makes none. -/
theorem makes_cases (op : Operation α) (st : Session α) :
    (∃ k, op.makes st = [k] ∧ k.New st.assembly (op.after st).assembly) ∨ op.makes st = [] := by
  cases op with
  | make recipe =>
    obtain ⟨k, hanswer, hk⟩ := (Act.runs_make recipe st.assembly).at_session
    exact Or.inl ⟨k, by simp only [makes, hanswer], hk⟩
  | _ => exact Or.inr rfl

/-- After an operation that is given references made before, the memory is coherent with what it made, too. -/
theorem coherent {made : List (Combinator α)} {st : Session α} (h : Coherent (referencesOf made) st.assembly)
    (op : Operation α) (hrefs : op.references ⊆ referencesOf made) :
    Coherent (referencesOf (made ++ op.makes st)) (op.after st).assembly := by
  rcases op.makes_cases st with ⟨k, hmakes, hk⟩ | hmakes
  · have happend : referencesOf (made ++ [k]) = referencesOf made ++ k.formula.references := by simp [referencesOf]
    rw [hmakes, happend]
    exact h.make hk
  · rw [hmakes, List.append_nil]
    exact (op.registration st).coherent h hrefs

/-- What a factory makes asks for what it reads. -/
theorem fitting_makes {st : Session α} {op : Operation α} {k : Combinator α} (hk : k ∈ op.makes st) :
    k.formula.Fitting := by
  rcases op.makes_cases st with ⟨k', hmakes, hnew⟩ | hmakes
  · rw [hmakes] at hk
    rw [List.mem_singleton.mp hk]
    exact hnew.fitting
  · rw [hmakes] at hk
    exact absurd hk List.not_mem_nil

end Operation

/-! ### Whole runs -/

/-- Every reference that an operation of a run is given belongs to a computed target of `made`, or to one that a factory
made earlier in the run.  Keys stand for the identity of references, so a reference with a key that no factory gave it
is no reference at all. -/
def Genuine (made : List (Combinator α)) : List (Operation α) → Session α → Prop
  | [], _ => True
  | op :: rest, st => op.references ⊆ referencesOf made ∧ Genuine (made ++ op.makes st) rest (op.after st)

/-- A run is genuine that is given no references but those made before it. -/
theorem genuine_of_references {made : List (Combinator α)} {ops : List (Operation α)} {st : Session α}
    (h : ∀ op ∈ ops, op.references ⊆ referencesOf made) : Genuine made ops st := by
  induction ops generalizing made st with
  | nil => exact trivial
  | cons op rest ih =>
    obtain ⟨hop, hrest⟩ := List.forall_mem_cons.mp h
    refine ⟨hop, ih fun later hlater r hr => ?_⟩
    obtain ⟨k, hk, hr⟩ := List.mem_flatMap.mp (hrest later hlater hr)
    exact List.mem_flatMap.mpr ⟨k, List.mem_append_left _ hk, hr⟩

theorem coherent_run {made : List (Combinator α)} {st : Session α} (h : Coherent (referencesOf made) st.assembly)
    {ops : List (Operation α)} (hgenuine : Genuine made ops st) :
    Coherent (referencesOf (made ++ gathered Operation.makes ops st)) (run ops st).assembly := by
  induction ops generalizing made st with
  | nil =>
    rw [show made ++ gathered Operation.makes [] st = made from List.append_nil made]
    exact h
  | cons op rest ih =>
    obtain ⟨hrefs, hrest⟩ := hgenuine
    have hlater := ih (op.coherent h hrefs) hrest
    rw [List.append_assoc] at hlater
    exact hlater

/-- The memory is coherent whatever operations a new session has seen, as long as references come from factories. -/
theorem coherent_run_empty {ambient : Config α} {journal : Journal α} {ops : List (Operation α)}
    (hgenuine : Genuine [] ops ⟨.empty ambient, journal⟩) :
    Coherent (referencesOf (gathered Operation.makes ops ⟨.empty ambient, journal⟩))
      (run ops ⟨.empty ambient, journal⟩).assembly := by
  have hempty : Coherent (referencesOf ([] : List (Combinator α))) (Assembly.empty ambient) :=
    Assembly.coherent_empty ambient
  exact coherent_run hempty hgenuine

theorem fitting_gathered {ops : List (Operation α)} {st : Session α} {k : Combinator α}
    (hk : k ∈ gathered Operation.makes ops st) : k.formula.Fitting := by
  induction ops generalizing st with
  | nil => exact absurd hk List.not_mem_nil
  | cons op rest ih =>
    rcases List.mem_append.mp hk with hk | hk
    · exact Operation.fitting_makes hk
    · exact ih hk

/-- The laws of the memory of a session, where `made` are the computed targets that factories have made so far. -/
structure MemoryLaws (made : List (Combinator α)) (st : Session α) : Prop where
  /-- A computed target has the value, or fails for the reason, that it has with every reference looked up anew in the
  system of its owner. -/
  evaluate : ∀ k : Combinator α, k.formula.references ⊆ referencesOf made → ∀ c,
    (Act.evaluate c (.computed k)).answer st = st.assembly.valueOf c k.formula
  targetLength : ∀ c,
    (Act.targetLength c).answer st = st.assembly.wanted c (st.assembly.constraint c).lengthTarget
  targetAngle : ∀ c,
    (Act.targetAngle c).answer st = st.assembly.wanted c (st.assembly.constraint c).angleTarget
  /-- A reference that finds nothing for a constraint has nothing remembered for its system, and leaves nothing
  behind. -/
  missed : ∀ k : Combinator α, k.formula.references ⊆ referencesOf made → ∀ c, ∀ r ∈ k.formula.references,
    (∀ d, st.assembly.lookUp c r ≠ .ok d) → ∀ s,
      ((Act.evaluate c (.computed k)).after st).assembly.remembered? r.key s = st.assembly.remembered? r.key s ∧
        ((st.assembly.constraint c).owner = some s → st.assembly.remembered? r.key s = none)
  /-- Once all that it refers to is registered, a computed target has a value. -/
  succeeds : ∀ k ∈ made, k.formula.references ≠ [] → ∀ c,
    (∀ r ∈ k.formula.references, ∃ d, st.assembly.lookUp c r = .ok d) →
      ∃ x, (Act.evaluate c (.computed k)).answer st = .ok x
  /-- What is remembered for a system is registered with it. -/
  registered : ∀ key s d, st.assembly.remembered? key s = some d → d ∈ (st.assembly.system s).constraints

section Reading

variable {made : List Reference} {st : Session α} {c : ConstraintId}

/-- A computed target whose references were all made reads as with every reference looked up anew. -/
theorem Assembly.Coherent.evaluate (h : Coherent made st.assembly) {k : Combinator α} (hk : k.formula.references ⊆ made) :
    (Act.evaluate c (.computed k)).answer st = st.assembly.valueOf c k.formula :=
  (Act.runs_evaluate st.assembly c (.computed k)).at_session.2 (fun r hr r' hr' => h.apart r (hk hr) r' (hk hr'))
    fun _ hr => h.honest (hk hr) c

theorem Assembly.Coherent.targetLength (h : Coherent made st.assembly) :
    (Act.targetLength c).answer st = st.assembly.wanted c (st.assembly.constraint c).lengthTarget := by
  obtain ⟨hapart, hhonest⟩ := h.stored (c := c) fun r hr => ⟨c, Or.inl hr⟩
  exact (Act.runs_targetLength st.assembly c).at_session.2 hapart hhonest

theorem Assembly.Coherent.targetAngle (h : Coherent made st.assembly) :
    (Act.targetAngle c).answer st = st.assembly.wanted c (st.assembly.constraint c).angleTarget := by
  obtain ⟨hapart, hhonest⟩ := h.stored (c := c) fun r hr => ⟨c, Or.inr hr⟩
  exact (Act.runs_targetAngle st.assembly c).at_session.2 hapart hhonest

/-- An evaluation leaves nothing behind for a reference that finds nothing. -/
theorem Assembly.Coherent.missed (h : Coherent made st.assembly) {k : Combinator α} (hk : k.formula.references ⊆ made)
    {r : Reference} (hr : r ∈ k.formula.references) (hmissed : ∀ d, st.assembly.lookUp c r ≠ .ok d) (s : SystemId) :
    ((Act.evaluate c (.computed k)).after st).assembly.remembered? r.key s = st.assembly.remembered? r.key s := by
  have hconsulted := (Act.runs_evaluate st.assembly c (.computed k)).at_session.1
  refine hconsulted.remembered?_eq (fun r' hr' hkey => ?_) s
  rw [h.apart r (hk hr) r' (hk hr') hkey]
  exact hmissed

end Reading

/-- In a new session, whatever operations are performed and in whatever order, as long as references come from
factories, the laws of the memory hold afterwards. -/
theorem run_memoryLaws (ambient : Config α) (journal : Journal α) (ops : List (Operation α))
    (hgenuine : Genuine [] ops ⟨.empty ambient, journal⟩) :
    MemoryLaws (gathered Operation.makes ops ⟨.empty ambient, journal⟩) (run ops ⟨.empty ambient, journal⟩) := by
  set st := run ops ⟨.empty ambient, journal⟩
  set made := gathered Operation.makes ops ⟨.empty ambient, journal⟩
  have hempty : Coherent (referencesOf ([] : List (Combinator α))) (Assembly.empty ambient) :=
    Assembly.coherent_empty ambient
  have h : Coherent (referencesOf made) st.assembly := coherent_run hempty hgenuine
  refine {
    evaluate := fun k hk c => h.evaluate hk
    targetLength := fun c => h.targetLength
    targetAngle := fun c => h.targetAngle
    missed := fun k hk c r hr hmissed s => ⟨h.missed hk hr hmissed s, h.forgotten (hk hr) hmissed⟩
    succeeds := fun k hk hrefs c hfound => ?_
    registered := fun key s d hd => h.registered hd }
  have hmem : k.formula.references ⊆ referencesOf made := fun r hr => List.mem_flatMap.mpr ⟨k, hk, hr⟩
  rw [h.evaluate hmem]
  exact Assembly.valueOf_ok (fitting_gathered hk) hrefs hfound

/-- The length of the rod, as the first factory call of a session makes it. -/
def rodLength : Combinator Float := ⟨.lengthFrom "rod" 1, .lengthOf ⟨0, "rod", .length⟩ 1⟩

/-- A run that first makes the length of the rod may be given it from then on. -/
theorem genuine_rodLength {ops : List (Operation Float)} (h : ∀ op ∈ ops, op.references ⊆ referencesOf [rodLength]) :
    Genuine [] (.make (.lengthFrom "rod" none) :: ops) ⟨.empty .standard, .empty Level.warning⟩ :=
  ⟨List.nil_subset _, genuine_of_references h⟩

/-- Two systems share the length of the rod and two nodes, and each gets a rod of its own, of length four and of length
five.  The length is read for the bar of the first system before and after that has its rod. -/
def twoRods : List (Operation Float) :=
  let bar : PairOptions Float := { length := some (.target (.computed rodLength)) }
  let rod : PairOptions Float := { id := some (some "rod") }
  [.make (.lengthFrom "rod" none), .newSystem none, .newSystem none,
    .node 0 0 0 {}, .node 0 3 0 {}, .node 0 0 4 {}, .pair 0 0 1 bar, .pair 1 0 1 bar, .targetLength 0,
    .pair 0 0 2 rod, .targetLength 0, .pair 1 1 2 rod]

theorem run_memoryLaws_twoRods :
    Genuine [] twoRods ⟨.empty .standard, .empty Level.warning⟩ ∧
      MemoryLaws (gathered Operation.makes twoRods ⟨.empty .standard, .empty Level.warning⟩)
        (run twoRods ⟨.empty .standard, .empty Level.warning⟩) ∧
      ((Act.targetLength 0).answer (run twoRods ⟨.empty .standard, .empty Level.warning⟩)).toOption.map
        (·.map (· == 4)) = some (some true) ∧
      ((Act.targetLength 1).answer (run twoRods ⟨.empty .standard, .empty Level.warning⟩)).toOption.map
        (·.map (· == 5)) = some (some true) := by
  have hmade : (Operation.make (Recipe.lengthFrom "rod" none)).makes
      ⟨.empty Config.standard, .empty Level.warning⟩ = [rodLength] := rfl
  have hgenuine : Genuine [] twoRods ⟨.empty .standard, .empty Level.warning⟩ := by
    refine ⟨List.nil_subset _, ?_⟩
    rw [hmade]
    simp [Genuine, Operation.makes, Operation.references, referencesOf, rodLength, Spec.references, Target.references,
      Formula.references]
  exact ⟨hgenuine, run_memoryLaws .standard (.empty Level.warning) twoRods hgenuine, by decide +kernel,
    by decide +kernel⟩

end Linkage
