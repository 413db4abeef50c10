import Linkage.Tracing
import Mathlib.Data.List.Forall2

/-!
# Linkage.Proofs.Instrumenting — what instrumenting a module traces

Instrumenting a module goes through the names that it binds.  A function is traced in its place; a class is visited under
every name that it is bound to, so its methods may be asked for again when they are traced already.  That does no harm
because a function that is marked is left alone (`Function.trace_trace`): a class that was visited once stays as it is
(`foldl_visit_of_fixed`), and so does a module that was instrumented once.

`Instrumented` says what is left of every function, class and name of a module, without the order in which they were
visited.  Main statement: `instrument_selects`.
-/

namespace Linkage.Tracing

/-! ### One function -/

namespace Function

/-- What is left of a function that is to be traced as an operation exactly if it is selected.  It is traced if it was or
is selected.  Its calls are reported once more if it is traced only now, and nothing of it changes otherwise. -/
structure Left (selected : Prop) (operation : String) (f f' : Function) : Prop where
  traced : f'.traced = true ↔ f.traced = true ∨ selected
  origin : f'.origin = f.origin
  name : f'.name = f.name
  reported : f.traced = false → selected → f'.operations = operationName (some operation) f.name :: f.operations
  kept : f.traced = true ∨ ¬selected → f' = f

variable {f : Function} {operation operation' : String}

theorem trace_of_traced (h : f.traced = true) : f.trace operation = f := if_pos h

theorem trace_of_untraced (h : f.traced = false) : f.trace operation =
    { f with traced := true, operations := operationName (some operation) f.name :: f.operations } :=
  if_neg (Bool.eq_false_iff.mp h)

theorem traced_trace : (f.trace operation).traced = true := by
  cases h : f.traced with
  | true => rw [trace_of_traced h, h]
  | false => rw [trace_of_untraced h]

theorem origin_trace : (f.trace operation).origin = f.origin := by
  cases h : f.traced with
  | true => rw [trace_of_traced h]
  | false => rw [trace_of_untraced h]

/-- A traced function is not traced again, under whatever name. -/
theorem trace_trace : (f.trace operation).trace operation' = f.trace operation := trace_of_traced traced_trace

theorem left_trace {selected : Prop} (h : selected) : f.Left selected operation (f.trace operation) where
  traced := iff_of_true traced_trace (Or.inr h)
  origin := origin_trace
  name := by
    cases hf : f.traced with
    | true => rw [trace_of_traced hf]
    | false => rw [trace_of_untraced hf]
  reported hf _ := by rw [trace_of_untraced hf]
  kept hf := trace_of_traced (hf.resolve_right (not_not_intro h))

theorem left_self {selected : Prop} (h : ¬selected) : f.Left selected operation f where
  traced := (or_iff_left h).symm
  origin := rfl
  name := rfl
  reported _ hselected := absurd hselected h
  kept _ := rfl

/-- What a test leaves of a function, if the test says whether it is selected. -/
theorem left_of_test {selected : Prop} {test : Bool} (h : test = true ↔ selected) :
    f.Left selected operation (if test then f.trace operation else f) := by
  cases test with
  | true => exact left_trace (h.mp rfl)
  | false => exact left_self fun hselected => Bool.false_ne_true (h.mpr hselected)

/-- What a test of the origin selects to be traced, it selects again, and then there is nothing to do. -/
theorem trace_test_again {f' : Function} (test : String → Bool)
    (h : f' = if test f.origin then f.trace operation else f) :
    (if test f'.origin then f'.trace operation else f') = f' := by
  subst h
  cases h : test f.origin with
  | true => rw [if_pos rfl, origin_trace, h, if_pos rfl, trace_trace]
  | false => rw [if_neg Bool.false_ne_true, h, if_neg Bool.false_ne_true]

end Function

/-! ### Names -/

/-- The name starts and ends with two underscores. -/
def Reserved (name : String) : Prop := "__".toList <+: name.toList ∧ "__".toList <:+ name.toList

theorem isReserved_iff {name : String} : isReserved name = true ↔ Reserved name := by
  unfold isReserved Reserved
  rw [Bool.and_eq_true, String.startsWith_string_iff, String.endsWith, String.Slice.endsWith_string_iff,
    String.copy_toSlice]

theorem not_contains_iff {names : List String} {name : String} : (!names.contains name) = true ↔ name ∉ names := by
  rw [Bool.not_eq_true', ← Bool.not_eq_true, List.contains_iff_mem]

/-! ### The members of a class -/

/-- The selection takes a function that a class holds under a name. -/
structure Selection.TakesMember (s : Selection) (c : Class) (name : String) (f : Function) : Prop where
  notReserved : ¬Reserved name
  own : f.origin = c.origin
  notSkipped : name ∉ s.skip
  notSkippedHere : c.qualified name ∉ s.skip

/-- What is left of a member of a class, if the class is visited or not. -/
inductive MemberLeft (s : Selection) (c : Class) (visited : Prop) : String × Member → String × Member → Prop where
  | function {name : String} {f f' : Function} (h : f.Left (visited ∧ s.TakesMember c name f) (c.qualified name) f') :
    MemberLeft s c visited (name, .function f) (name, .function f')
  | other {name : String} : MemberLeft s c visited (name, .other) (name, .other)

namespace Class

variable {s : Selection} {c : Class}

theorem takes_iff {name : String} {f : Function} :
    (s.takesMethod c name && decide (f.origin = c.origin)) = true ↔ s.TakesMember c name f := by
  unfold Selection.takesMethod
  rw [Bool.and_eq_true, Bool.and_eq_true, Bool.and_eq_true, decide_eq_true_iff, not_contains_iff, not_contains_iff,
    Bool.not_eq_true', ← Bool.not_eq_true, isReserved_iff]
  exact ⟨fun ⟨⟨⟨hreserved, hname⟩, hqualified⟩, hown⟩ => ⟨hreserved, hown, hname, hqualified⟩,
    fun h => ⟨⟨⟨h.notReserved, h.notSkipped⟩, h.notSkippedHere⟩, h.own⟩⟩

/-- A visit leaves of a member what the selection takes of it. -/
theorem memberLeft_traceMember (m : String × Member) : MemberLeft s c True m (c.traceMember s m) := by
  obtain ⟨name, m⟩ := m
  cases m with
  | function f => exact .function (Function.left_of_test (takes_iff.trans (iff_of_eq (true_and _).symm)))
  | other => exact .other

/-- Where no visit is made, members stay as they are. -/
theorem memberLeft_self {visited : Prop} (h : ¬visited) (m : String × Member) : MemberLeft s c visited m m := by
  obtain ⟨name, m⟩ := m
  cases m with
  | function f => exact .function (Function.left_self fun hselected => h hselected.1)
  | other => exact .other

theorem traceMember_traceMember (m : String × Member) :
    c.traceMember s (c.traceMember s m) = c.traceMember s m := by
  obtain ⟨name, m⟩ := m
  cases m with
  | function f =>
    let test (origin : String) : Bool := s.takesMethod c name && decide (origin = c.origin)
    exact congrArg (fun f' => (name, Member.function f')) (Function.trace_test_again test rfl)
  | other => rfl

/-- A class that was visited stays as it is on the next visit. -/
theorem trace_trace : (c.trace s).trace s = c.trace s := by
  have hmembers : (c.members.map (c.traceMember s)).map (c.traceMember s) = c.members.map (c.traceMember s) := by
    rw [List.map_map]
    exact List.map_congr_left fun m _ => traceMember_traceMember m
  exact congrArg (fun members => { c with members := members }) hmembers

end Class

/-! ### The names of a module -/

/-- What is left of a name that a module binds. -/
inductive BindingLeft (n : Namespace) (s : Selection) : String × Binding → String × Binding → Prop where
  | function {name : String} {f f' : Function} (h : f.Left (f.origin = n.name ∧ name ∉ s.skip) name f') :
    BindingLeft n s (name, .function f) (name, .function f')
  | classNumber {name : String} {number : Nat} : BindingLeft n s (name, .classNumber number) (name, .classNumber number)
  | other {name : String} : BindingLeft n s (name, .other) (name, .other)

namespace Namespace

/-- A class of the module is visited under a name that it is bound to. -/
structure Visits (n : Namespace) (s : Selection) (number : Nat) (c : Class) (b : String × Binding) : Prop where
  methods : s.methods = true
  own : c.origin = n.name
  bound : b.2 = .classNumber number
  notSkipped : b.1 ∉ s.skip

/-- What is left of a class of a number: its methods are traced if it is visited under some name. -/
structure ClassLeft (n : Namespace) (s : Selection) (number : Nat) (c c' : Class) : Prop where
  name : c'.name = c.name
  origin : c'.origin = c.origin
  members : List.Forall₂ (MemberLeft s c (∃ b ∈ n.bindings, n.Visits s number c b)) c.members c'.members

/-- `n'` is what is left of the module `n` when a selection of it is traced. -/
structure Instrumented (s : Selection) (n n' : Namespace) : Prop where
  name : n'.name = n.name
  bindings : List.Forall₂ (BindingLeft n s) n.bindings n'.bindings
  classes : ∀ number : Nat, Option.Rel (n.ClassLeft s number) n.classes[number]? n'.classes[number]?

variable {n : Namespace} {s : Selection} {number : Nat} {c : Class} {classes : List Class}

theorem bindingLeft_traceBinding (b : String × Binding) : BindingLeft n s b (n.traceBinding s b) := by
  obtain ⟨name, b⟩ := b
  cases b with
  | function f =>
    refine .function (Function.left_of_test ?_)
    rw [Bool.and_eq_true, decide_eq_true_iff, not_contains_iff]
    exact and_comm
  | classNumber number => exact .classNumber
  | other => exact .other

theorem traceBinding_traceBinding (b : String × Binding) :
    n.traceBinding s (n.traceBinding s b) = n.traceBinding s b := by
  obtain ⟨name, b⟩ := b
  cases b with
  | function f =>
    let test (origin : String) : Bool := !s.skip.contains name && decide (origin = n.name)
    exact congrArg (fun f' => (name, Binding.function f')) (Function.trace_test_again test rfl)
  | classNumber number => rfl
  | other => rfl

/-! ### Visits -/

/-- One visit: it leaves the class as it is or traces its methods. -/
theorem getElem?_visit (h : classes[number]? = some c) (b : String × Binding) :
    (n.visit s classes b)[number]? = some c ∧ ¬n.Visits s number c b ∨
      (n.visit s classes b)[number]? = some (c.trace s) ∧ n.Visits s number c b := by
  obtain ⟨name, b⟩ := b
  cases b with
  | function f => exact Or.inl ⟨h, fun hvisit => Binding.noConfusion hvisit.bound⟩
  | other => exact Or.inl ⟨h, fun hvisit => Binding.noConfusion hvisit.bound⟩
  -- a visit traces a class if its settings ask for methods, its name is not skipped, and the class is the module's own
  | classNumber number' =>
    by_cases htest : (s.methods && !s.skip.contains name) = true
    · have hvisit : n.visit s classes (name, .classNumber number') =
          classes.modify number' fun c => if c.origin = n.name then c.trace s else c := if_pos htest
      rw [hvisit, List.getElem?_modify, h]
      rw [Bool.and_eq_true, not_contains_iff] at htest
      by_cases hnumber : number' = number
      · by_cases hown : c.origin = n.name
        · refine Or.inr ⟨?_, htest.1, hown, congrArg _ hnumber, htest.2⟩
          simp only [hnumber, hown, if_true, Option.map_eq_map, Option.map_some]
        · refine Or.inl ⟨?_, fun hvisit => hown hvisit.own⟩
          simp only [hnumber, hown, if_true, if_false, Option.map_eq_map, Option.map_some]
      · refine Or.inl ⟨?_, fun hvisit => hnumber (Binding.classNumber.inj hvisit.bound)⟩
        simp only [hnumber, if_false, Option.map_eq_map, Option.map_some]
    · have hvisit : n.visit s classes (name, .classNumber number') = classes := if_neg htest
      refine Or.inl ⟨hvisit.symm ▸ h, fun hvisit => htest ?_⟩
      rw [Bool.and_eq_true, not_contains_iff]
      exact ⟨hvisit.methods, hvisit.notSkipped⟩

/-- A class that another visit would not change stays as it is, under however many names. -/
theorem foldl_visit_of_fixed {bindings : List (String × Binding)} (h : classes[number]? = some c)
    (hfixed : (∃ b ∈ bindings, n.Visits s number c b) → c.trace s = c) :
    (bindings.foldl (n.visit s) classes)[number]? = some c := by
  induction bindings generalizing classes with
  | nil => exact h
  | cons b rest ih =>
    refine ih ?_ fun ⟨b', hb', hvisit⟩ => hfixed ⟨b', List.mem_cons_of_mem b hb', hvisit⟩
    rcases getElem?_visit h b with ⟨hkept, -⟩ | ⟨htraced, hvisit⟩
    · exact hkept
    · rw [htraced, hfixed ⟨b, List.mem_cons_self, hvisit⟩]

/-- A class is traced once if it is visited at all. -/
theorem foldl_visit_of_visits {bindings : List (String × Binding)} (h : classes[number]? = some c)
    (hvisits : ∃ b ∈ bindings, n.Visits s number c b) :
    (bindings.foldl (n.visit s) classes)[number]? = some (c.trace s) := by
  induction bindings generalizing classes with
  | nil => exact absurd hvisits (by simp)
  | cons b rest ih =>
    rcases getElem?_visit h b with ⟨hkept, hnot⟩ | ⟨htraced, -⟩
    · obtain ⟨b', hb', hvisit⟩ := hvisits
      rcases List.mem_cons.mp hb' with rfl | hb'
      · exact absurd hvisit hnot
      · exact ih hkept ⟨b', hb', hvisit⟩
    · -- from the first visit on, the class is one that other visits do not change
      rw [List.foldl_cons]
      exact foldl_visit_of_fixed htraced fun _ => Class.trace_trace

theorem length_visit (b : String × Binding) : (n.visit s classes b).length = classes.length := by
  obtain ⟨name, b⟩ := b
  cases b with
  | function f => rfl
  | other => rfl
  | classNumber number => exact (apply_ite List.length ..).trans (by rw [List.length_modify, ite_self])

/-- No class comes to be. -/
theorem length_classes_instrument : (n.instrument s).classes.length = n.classes.length :=
  List.foldlRecOn n.bindings (n.visit s) (motive := fun classes => classes.length = n.classes.length) rfl
    fun _ h b _ => (length_visit b).trans h

theorem getElem?_classes_instrument_eq_none (h : n.classes[number]? = none) :
    (n.instrument s).classes[number]? = none := by
  rw [List.getElem?_eq_none_iff] at h ⊢
  rwa [length_classes_instrument]

/-- What going through all names leaves of a class. -/
theorem getElem?_classes_instrument (h : n.classes[number]? = some c) :
    (n.instrument s).classes[number]? = some (c.trace s) ∧ (∃ b ∈ n.bindings, n.Visits s number c b) ∨
      (n.instrument s).classes[number]? = some c ∧ ¬∃ b ∈ n.bindings, n.Visits s number c b := by
  by_cases hvisits : ∃ b ∈ n.bindings, n.Visits s number c b
  · exact Or.inl ⟨foldl_visit_of_visits h hvisits, hvisits⟩
  · exact Or.inr ⟨foldl_visit_of_fixed h fun h => absurd h hvisits, hvisits⟩

theorem classLeft_trace (h : ∃ b ∈ n.bindings, n.Visits s number c b) : n.ClassLeft s number c (c.trace s) where
  name := rfl
  origin := rfl
  members := by
    refine List.forall₂_map_right_iff.mpr (List.forall₂_same.mpr fun m _ => ?_)
    rw [eq_true h]
    exact Class.memberLeft_traceMember m

theorem classLeft_self (h : ¬∃ b ∈ n.bindings, n.Visits s number c b) : n.ClassLeft s number c c where
  name := rfl
  origin := rfl
  members := List.forall₂_same.mpr fun m _ => Class.memberLeft_self h m

theorem instrumented (n : Namespace) (s : Selection) : Instrumented s n (n.instrument s) where
  name := rfl
  bindings := List.forall₂_map_right_iff.mpr (List.forall₂_same.mpr fun b _ => bindingLeft_traceBinding b)
  classes number := by
    cases h : n.classes[number]? with
    | none =>
      rw [getElem?_classes_instrument_eq_none h]
      exact .none
    | some c =>
      rcases getElem?_classes_instrument h with ⟨htraced, hvisits⟩ | ⟨hkept, hvisits⟩
      · rw [htraced]
        exact .some (classLeft_trace hvisits)
      · rw [hkept]
        exact .some (classLeft_self hvisits)

/-- The names that a class is bound to stay bound to it, and no others come to be. -/
theorem visits_instrument_iff :
    (∃ b ∈ (n.instrument s).bindings, (n.instrument s).Visits s number c b) ↔
      ∃ b ∈ n.bindings, n.Visits s number c b := by
  constructor
  · rintro ⟨b', hb', hvisit⟩
    obtain ⟨⟨name, b⟩, hb, rfl⟩ := List.mem_map.mp hb'
    cases b with
    | function f => exact Binding.noConfusion hvisit.bound
    | other => exact Binding.noConfusion hvisit.bound
    | classNumber number' => exact ⟨_, hb, hvisit.methods, hvisit.own, hvisit.bound, hvisit.notSkipped⟩
  · rintro ⟨⟨name, b⟩, hb, hvisit⟩
    obtain rfl : b = .classNumber number := hvisit.bound
    exact ⟨_, List.mem_map.mpr ⟨_, hb, rfl⟩, hvisit.methods, hvisit.own, rfl, hvisit.notSkipped⟩

theorem classes_instrument_instrument : ((n.instrument s).instrument s).classes = (n.instrument s).classes := by
  refine List.ext_getElem? fun number => ?_
  cases h : n.classes[number]? with
  | none =>
    have hnone : (n.instrument s).classes[number]? = none := getElem?_classes_instrument_eq_none h
    rw [hnone]
    exact getElem?_classes_instrument_eq_none hnone
  | some c =>
    rcases getElem?_classes_instrument h with ⟨htraced, -⟩ | ⟨hkept, hvisits⟩
    · rw [htraced]
      exact foldl_visit_of_fixed htraced fun _ => Class.trace_trace
    · rw [hkept]
      exact foldl_visit_of_fixed hkept fun h => absurd (visits_instrument_iff.mp h) hvisits

/-- Instrumenting a module traces what is selected and nothing else, each function once, and doing it again changes
nothing. -/
theorem instrument_selects (n : Namespace) (s : Selection) :
    Instrumented s n (n.instrument s) ∧ (n.instrument s).instrument s = n.instrument s := by
  refine ⟨instrumented n s, ?_⟩
  have hbindings : ((n.instrument s).instrument s).bindings = (n.instrument s).bindings := by
    refine (List.map_map ..).trans (List.map_congr_left fun b _ => ?_)
    exact traceBinding_traceBinding b
  exact (Namespace.mk.injEq ..).mpr ⟨rfl, hbindings, classes_instrument_instrument⟩

end Namespace

end Linkage.Tracing
