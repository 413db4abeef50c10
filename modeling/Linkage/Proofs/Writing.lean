import Linkage.Proofs.Runs
import Linkage.Sorting.Permutation
import Linkage.System.Registry
import Linkage.System.Report
import Linkage.Target.Factory

/-!
# Linkage.Proofs.Writing — what can be written

A value fails to be written for two reasons only: an integer with too many digits in it, or more layers of lists than there
is room for (`Value.of_refusal?`).

Numbers of the layout, names, and snapshots of objects can be written in whatever room, and so can the lists of residuals
that operations answer.  Calls and results that consist of these never make tracing fail (`Act.Writable`).  This leaves the
data that a user gives of his own: the options of pairs and triples, a limit, and a level.
-/

namespace Linkage

theorem Text.isTooLong_eq_false {n : Int} (h : n.natAbs < 10) : Text.isTooLong n = false := by
  have hword : n.natAbs < Nat.pow 2 64 := Nat.lt_of_lt_of_le h (by decide)
  unfold Text.isTooLong
  rw [decide_eq_false (Nat.not_le.mpr hword), Bool.false_and]

variable {α : Type} [Scalar α]

namespace Value

/-! ### Why values cannot be written -/

mutual

/-- How many layers of lists and tuples a value has, from outside.  A value that is neither has none, whatever is in
it. -/
def layers {α : Type} : Value α → Nat
  | .list items | .tuple items => layersAll items + 1
  | _ => 0

/-- The most layers of some values. -/
def layersAll {α : Type} : List (Value α) → Nat
  | [] => 0
  | v :: rest => max (layers v) (layersAll rest)

end

theorem layers_le_layersAll {α : Type} {items : List (Value α)} {v : Value α} (h : v ∈ items) :
    v.layers ≤ layersAll items := by
  induction items with
  | nil => exact absurd h List.not_mem_nil
  | cons u rest ih =>
    rw [layersAll]
    rcases List.mem_cons.mp h with rfl | h
    · exact Nat.le_max_left ..
    · exact Nat.le_trans (ih h) (Nat.le_max_right ..)

theorem layers_eq_zero {α : Type} {v : Value α} (h : v.isSequence = false) : v.layers = 0 := by
  cases v with
  | list items => cases h
  | tuple items => cases h
  | _ => rfl

theorem anyOverlong_eq_any {α : Type} (items : List (Value α)) : anyOverlong items = items.any isOverlong := by
  induction items with
  | nil => rfl
  | cons v rest ih => rw [anyOverlong, ih, List.any_cons]

theorem entriesOverlong_eq_any {α : Type} (entries : List (Value α × Value α)) :
    entriesOverlong entries = entries.any fun e => e.1.isOverlong || e.2.isOverlong := by
  induction entries with
  | nil => rfl
  | cons e rest ih => rw [entriesOverlong, ih, List.any_cons, Bool.or_assoc]

theorem mem_of_mem_sorted {β : Type} {key : β → Value α} {xs : List β} {x : β} (h : x ∈ sorted key xs) : x ∈ xs := by
  unfold sorted at h
  cases hsort : Sorting.sort (fun x y => less? (key x) (key y)) xs with
  | none =>
    rw [hsort] at h
    exact h
  | some ys =>
    rw [hsort] at h
    exact (Sorting.sort_perm hsort).mem_iff.mp h

/-- The brief form of a value fails to be written for too long an integer only. -/
theorem of_briefRefusal? {depth : Nat} {v : Value α} {fault : Fault α} (h : briefRefusal? depth v = some fault) :
    fault = .integerTooLong ∧ v.isOverlong = true := by
  induction depth generalizing v fault with
  | zero =>
    cases v with
    | int n =>
      rw [briefRefusal?] at h
      split at h
      case isTrue hlong => exact ⟨(Option.some.inj h).symm, hlong⟩
      case isFalse => cases h
    | _ => cases h
  | succ depth ih =>
    -- each collection shows some of its own elements
    have hitems {items shown : List (Value α)} (hsub : ∀ u ∈ shown, u ∈ items)
        (h : shown.findSome? (briefRefusal? depth) = some fault) :
        fault = .integerTooLong ∧ anyOverlong items = true := by
      obtain ⟨u, hu, hfault⟩ := List.exists_of_findSome?_eq_some h
      obtain ⟨hfault, hlong⟩ := ih hfault
      rw [anyOverlong_eq_any]
      exact ⟨hfault, List.any_eq_true.mpr ⟨u, hsub u hu, hlong⟩⟩
    cases v with
    | int n =>
      rw [briefRefusal?] at h
      split at h
      case isTrue hlong => exact ⟨(Option.some.inj h).symm, hlong⟩
      case isFalse => cases h
    | list items => exact hitems (fun _ => List.mem_of_mem_take) h
    | tuple items => exact hitems (fun _ => List.mem_of_mem_take) h
    | set items => exact hitems (fun _ hu => mem_of_mem_sorted (List.mem_of_mem_take hu)) h
    | dict entries =>
      obtain ⟨e, he, hfault⟩ := List.exists_of_findSome?_eq_some h
      have hmem : e ∈ entries := mem_of_mem_sorted (List.mem_of_mem_take he)
      have hlong : fault = .integerTooLong ∧ (e.1.isOverlong || e.2.isOverlong) = true := by
        rcases Option.or_eq_some_iff.mp hfault with hkey | ⟨-, hvalue⟩
        · exact ⟨(ih hkey).1, by rw [(ih hkey).2, Bool.true_or]⟩
        · exact ⟨(ih hvalue).1, by rw [(ih hvalue).2, Bool.or_true]⟩
      rw [isOverlong, entriesOverlong_eq_any]
      exact ⟨hlong.1, List.any_eq_true.mpr ⟨e, hmem, hlong.2⟩⟩
    | _ => cases h

theorem refusalsInside_eq_map (items : List (Value α)) (room : Nat) : refusalsInside items room = items.map fun v =>
    if v.isSequence && room == 0 then some .nestedTooDeep else refusal? shownItems v (room - 1) := by
  induction items with
  | nil => rfl
  | cons v rest ih => rw [refusalsInside, ih, List.map_cons]

/-- Elements of a list are shown if they are among the first. -/
theorem mem_of_mem_firstOf {β : Type} {limit : Int} {xs : List β} {x : β} (h : x ∈ Text.firstOf limit xs) : x ∈ xs := by
  unfold Text.firstOf at h
  split at h
  · exact List.mem_of_mem_take h
  · exact List.mem_of_mem_take h

/-- A value fails to be written for an integer in it that has too many digits, or because it has more layers than there is
room for. -/
theorem of_refusal? {limit : Int} {room : Nat} {v : Value α} {fault : Fault α} (h : v.refusal? limit room = some fault) :
    fault = .integerTooLong ∧ v.isOverlong = true ∨ fault = .nestedTooDeep ∧ room + 1 < v.layers := by
  induction hlayers : v.layers using Nat.strongRecOn generalizing v limit room with
  | ind layers ih =>
  subst hlayers
  -- a list and a tuple are written in the same way, one layer further inside
  have hitems {items : List (Value α)} (hinside : layersAll items < v.layers)
      (h : (Text.firstOf limit (refusalsInside items room)).findSome? id = some fault) :
      fault = .integerTooLong ∧ anyOverlong items = true ∨ fault = .nestedTooDeep ∧ room < layersAll items := by
    obtain ⟨_, hmem, rfl⟩ := List.exists_of_findSome?_eq_some h
    rw [refusalsInside_eq_map] at hmem
    obtain ⟨u, hu, hfault⟩ := List.mem_map.mp (mem_of_mem_firstOf hmem)
    have hless := layers_le_layersAll hu
    split at hfault
    case isTrue hdeep =>
      obtain ⟨hsequence, hroom⟩ := Bool.and_eq_true_iff.mp hdeep
      have hpos : u.layers ≠ 0 := by
        cases u with
        | list _ => exact Nat.succ_ne_zero _
        | tuple _ => exact Nat.succ_ne_zero _
        | _ => cases hsequence
      rw [beq_iff_eq] at hroom
      exact Or.inr ⟨(Option.some.inj hfault).symm, by omega⟩
    case isFalse hshallow =>
      rcases ih u.layers (Nat.lt_of_le_of_lt hless hinside) hfault rfl with ⟨hfault, hlong⟩ | ⟨hfault, hdeep⟩
      · rw [anyOverlong_eq_any]
        exact Or.inl ⟨hfault, List.any_eq_true.mpr ⟨u, hu, hlong⟩⟩
      · -- what has layers has room, since it was not refused at once
        have hroom : room ≠ 0 := by
          rintro rfl
          cases hsequence : u.isSequence with
          | true => exact hshallow (by rw [hsequence]; rfl)
          | false => rw [layers_eq_zero hsequence] at hdeep; omega
        exact Or.inr ⟨hfault, by omega⟩
  cases v with
  | list items => exact (hitems (Nat.lt_succ_self _) h).imp_right fun h => ⟨h.1, Nat.succ_lt_succ h.2⟩
  | tuple items => exact (hitems (Nat.lt_succ_self _) h).imp_right fun h => ⟨h.1, Nat.succ_lt_succ h.2⟩
  | array type shape items => cases h
  | node n => cases h
  | constraint c => cases h
  | _ => exact Or.inl (of_briefRefusal? h)

/-- What has no integer with too many digits and no more layers than there is room for can be written. -/
theorem refusal?_eq_none {limit : Int} {room : Nat} {v : Value α} (hshort : v.isOverlong = false)
    (hlayers : v.layers ≤ room + 1) : v.refusal? limit room = none := by
  cases h : v.refusal? limit room with
  | none => rfl
  | some fault =>
    rcases of_refusal? h with ⟨-, hlong⟩ | ⟨-, hdeep⟩
    · cases hshort.symm.trans hlong
    · exact absurd hlayers (Nat.not_le.mpr hdeep)

/-- Nothing in a list in a list, and so on. -/
def nested {α : Type} : Nat → Value α
  | 0 => .nothing
  | depth + 1 => .list [nested depth]

/-- More layers than there is room for cannot be written. -/
theorem refusal?_nested {limit : Int} (hlimit : 0 < limit) {room depth : Nat} (hdeep : room + 1 < depth) :
    (nested depth : Value α).refusal? limit room = some .nestedTooDeep := by
  have hshown {limit : Int} (hlimit : 0 < limit) (x : Option (Fault α)) : Text.firstOf limit [x] = [x] := by
    unfold Text.firstOf
    rw [if_neg (by omega)]
    exact List.take_of_length_le (by rw [List.length_singleton]; omega)
  obtain ⟨inside, rfl⟩ : ∃ inside, depth = inside + 2 := ⟨depth - 2, by omega⟩
  -- one layer uses up one part of the room, whatever the limit of elements
  induction room generalizing limit inside with
  | zero =>
    have hinside : refusalsInside [nested (inside + 1)] 0 = [(some .nestedTooDeep : Option (Fault α))] := rfl
    rw [nested, refusal?, hinside, hshown hlimit]
    rfl
  | succ room ih =>
    obtain ⟨further, rfl⟩ : ∃ further, inside = further + 1 := ⟨inside - 1, by omega⟩
    have hinside : refusalsInside [nested (further + 2)] (room + 1) = [(some .nestedTooDeep : Option (Fault α))] := by
      rw [refusalsInside_eq_map, List.map_singleton, Nat.add_sub_cancel, ih (by decide) further (by omega)]
      rfl
    rw [nested, refusal?, hinside, hshown hlimit]
    rfl

theorem refusal?_int_of_tooLong {n : Int} (h : Text.isTooLong n = true) (limit : Int) (room : Nat) :
    (Value.int n : Value α).refusal? limit room = some .integerTooLong := if_pos h

theorem refusal?_int {n : Int} (h : Text.isTooLong n = false) (limit : Int) (room : Nat) :
    (Value.int n : Value α).refusal? limit room = none := if_neg (Bool.eq_false_iff.mp h)

theorem refusal?_optionalText (limit : Int) (room : Nat) (s : Option String) :
    (optionalText s : Value α).refusal? limit room = none := by
  cases s with
  | none => rfl
  | some s => rfl

theorem refusal?_residuals (limit : Int) (room : Nat) (rs : List (Residual α)) :
    (Value.list (rs.map Value.residual)).refusal? limit room = none := by
  have hplain : anyOverlong (rs.map Value.residual) = false ∧ layersAll (rs.map Value.residual) = 0 := by
    induction rs with
    | nil => exact ⟨rfl, rfl⟩
    | cons r rest ih => exact ⟨ih.1, by rw [List.map_cons, layersAll, ih.2]; rfl⟩
  exact refusal?_eq_none hplain.1 (by rw [layers, hplain.2]; omega)

end Value

namespace Call

variable {c : Call α} {room : Nat}

/-- A call can be written if each of its arguments can. -/
theorem refusal?_eq_none_iff : c.refusal? room = none ↔
    (∀ v ∈ c.args, v.refusal? Value.shownItems room = none) ∧
      ∀ n ∈ c.named, n.2.refusal? Value.shownItems room = none := by
  unfold refusal?
  rw [List.findSome?_eq_none_iff, List.forall_mem_append, List.forall_mem_map]

/-- The call of an operation with an integer that may be missing. -/
theorem refusal?_withInteger {n : Option Int} (h : ∀ i ∈ n, Text.isTooLong i = false) (room : Nat) :
    ({ args := (n.map Value.int).toList } : Call α).refusal? room = none := by
  refine refusal?_eq_none_iff.mpr ⟨fun v hv => ?_, fun n hn => absurd hn List.not_mem_nil⟩
  obtain ⟨i, hi, rfl⟩ := Option.map_eq_some_iff.mp (Option.mem_toList.mp hv)
  exact Value.refusal?_int (h i hi) _ _

/-- The call of a factory with references and a number that may be missing. -/
theorem refusal?_withNumber (refs : List String) (x : Option α) (room : Nat) :
    ({ args := refs.map Value.text ++ (x.map Value.float).toList } : Call α).refusal? room = none := by
  refine refusal?_eq_none_iff.mpr ⟨?_, fun n hn => absurd hn List.not_mem_nil⟩
  rw [List.forall_mem_append, List.forall_mem_map]
  refine ⟨fun _ _ => rfl, fun v hv => ?_⟩
  obtain ⟨x, -, rfl⟩ := Option.map_eq_some_iff.mp (Option.mem_toList.mp hv)
  rfl

/-- The call of the factory whose scale may be given as missing. -/
theorem refusal?_withScale (ref : String) (scale : Option (Option α)) (room : Nat) :
    ({ args := .text ref :: (scale.map Act.scaleValue).toList } : Call α).refusal? room = none := by
  cases scale with
  | none => rfl
  | some given =>
    cases given with
    | none => rfl
    | some x => rfl

end Call

/-! ### Options that are accepted -/

/-- A direction can be written. -/
theorem Direction.refusal?_of_ofValue? {v : Value α} {direction : Direction} (h : ofValue? v = some direction)
    (limit : Int) (room : Nat) : v.refusal? limit room = none := by
  cases v with
  | int n =>
    have hsmall : n = -1 ∨ n = 0 ∨ n = 1 := by
      simp only [ofValue?] at h
      split at h
      · next hagainst => exact Or.inl hagainst
      · split at h
        · next heither => exact Or.inr (Or.inl heither)
        · split at h
          · next halong => exact Or.inr (Or.inr halong)
          · cases h
    exact Value.refusal?_int (Text.isTooLong_eq_false (by omega)) limit room
  | flag b => rfl
  | float x => rfl
  | _ => cases h

/-- A spec that stands for a target, or for none, can be written: too long an integer is beyond every scalar. -/
theorem Spec.refusal?_value_of_settle {spec : Spec α} {now : Except (Fault α) α} {t? : Option (Target α)}
    (h : spec.settle now = .ok t?) (limit : Int) (room : Nat) : spec.value.refusal? limit room = none := by
  cases spec with
  | absent => rfl
  | target t =>
    cases t with
    | fixed x => rfl
    | computed c => rfl
  | current => rfl
  | number n =>
    cases n with
    | flag b => rfl
    | float x => rfl
    | int n =>
      by_cases hlong : Text.isTooLong n
      · have hcoerce : (Spec.number (.int n) : Spec α).coerce = .error .integerTooLarge := by
          unfold coerce Numeral.toScalar
          dsimp only
          rw [if_pos hlong]
          rfl
        unfold settle at h
        rw [hcoerce] at h
        cases h
      · exact Value.refusal?_int (Bool.eq_false_iff.mpr hlong) limit room
  | marker word => rfl
  | callable name read => rfl
  | unsupported shown type => cases h

theorem NodeOptions.refusal?_named (o : NodeOptions α) (room : Nat) :
    ∀ n ∈ o.named, n.2.refusal? Value.shownItems room = none := by
  unfold named
  simp only [List.forall_mem_append, Option.mem_toList, Option.map_eq_some_iff, forall_exists_index, and_imp,
    forall_apply_eq_imp_iff₂]
  refine ⟨⟨fun _ _ => rfl, fun mass _ => ?_⟩, fun name _ => Value.refusal?_optionalText _ _ name⟩
  cases mass with
  | none => rfl
  | some mass => rfl

namespace Act

theorem writable_byId? (id : Option String) : Writable (α := α) (fun _ => { args := [.system, .optionalText id] })
    (fun a found => some (constraintOrNone a found)) where
  call _ room := by
    cases id with
    | none => rfl
    | some id => rfl
  result a found room := by
    cases found with
    | none => rfl
    | some c => rfl

/-- What a factory makes is shown by its name. -/
theorem writable_making {args : List (Value α)} (h : ∀ room, ({ args := args } : Call α).refusal? room = none) :
    Writable (α := α) (fun _ => { args := args }) (fun _ (k : Combinator α) => some (.combinator k.name)) :=
  ⟨fun _ room => h room, fun _ _ _ => rfl⟩

theorem writable_residuals : Writable (α := α) (fun _ => { args := [.system] })
    (fun _ (rs : List (Residual α)) => some (.list (rs.map .residual))) :=
  ⟨fun _ _ => rfl, fun _ rs room => Value.refusal?_residuals _ room rs⟩

theorem writable_node (x y : α) (o : NodeOptions α) :
    Writable (fun _ => { args := [.system, .float x, .float y], named := o.named }) (shownNode (α := α)) := by
  refine ⟨fun _ room => Call.refusal?_eq_none_iff.mpr ⟨fun v hv => ?_, o.refusal?_named room⟩, fun _ _ _ => rfl⟩
  simp only [List.mem_cons, List.not_mem_nil, or_false] at hv
  rcases hv with rfl | rfl | rfl <;> rfl

end Act

end Linkage
