import Linkage.Assembly

/-!
# Linkage.Proofs.Objects — reading an assembly after a change

Replacing a node, a constraint or a system is seen by nobody who reads another object.
-/

namespace Linkage

/-! ### The length of a table -/

namespace Table

variable {β : Type}

@[simp] theorem size_push (t : Table β) (b : β) : (t.push b).size = t.size + 1 := Array.size_push ..

/-- Writing a row makes the table long enough to hold it, and never shorter. -/
theorem size_set [Inhabited β] (t : Table β) (i : Nat) (b : β) : (t.set i b).size = max t.size (i + 1) := by
  unfold set size
  split
  case isTrue h =>
    rw [Array.size_set]
    omega
  case isFalse h =>
    rw [Array.size_push, Array.size_append, Array.size_replicate]
    omega

theorem size_le_set [Inhabited β] (t : Table β) (i : Nat) (b : β) : t.size ≤ (t.set i b).size := by
  rw [size_set]
  omega

theorem get_of_size_le [Inhabited β] {t : Table β} {i : Nat} (h : t.size ≤ i) : t.get i = default := by
  unfold get
  rw [Array.getD_eq_getD_getElem?, Array.getElem?_eq_none h]
  rfl

end Table

/-! ### Replacing an object -/

namespace Assembly

variable {α : Type}

section Constraints

@[simp] theorem constraint_setConstraint (a : Assembly α) (c d : ConstraintId) (k : Constraint α) :
    (a.setConstraint c k).constraint d = if c = d then k else a.constraint d := Table.get_set ..

@[simp] theorem system_setConstraint (a : Assembly α) (c : ConstraintId) (k : Constraint α) (s : SystemId) :
    (a.setConstraint c k).system s = a.system s := rfl

@[simp] theorem constraint_setSystem (a : Assembly α) (s : SystemId) (v : System) (c : ConstraintId) :
    (a.setSystem s v).constraint c = a.constraint c := rfl

@[simp] theorem system_setSystem (a : Assembly α) (s t : SystemId) (v : System) :
    (a.setSystem s v).system t = if s = t then v else a.system t := Table.get_set ..

end Constraints

variable [Scalar α]

@[simp] theorem node_setNode (a : Assembly α) (n m : NodeId) (v : Node α) :
    (a.setNode n v).node m = if n = m then v else a.node m := Table.get_set ..

@[simp] theorem constraint_setNode (a : Assembly α) (n : NodeId) (v : Node α) (c : ConstraintId) :
    (a.setNode n v).constraint c = a.constraint c := rfl

end Assembly

end Linkage
