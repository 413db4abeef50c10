/-!
# Linkage.Table — rows by number

A table is total: a row that was never written reads as the default, and writing past the end makes the table long
enough.  `get_set` is the one law that other modules need.
-/

namespace Linkage

/-- Rows numbered from zero. -/
structure Table (β : Type) where
  rows : Array β

namespace Table

variable {β : Type}

def empty : Table β := ⟨#[]⟩

/-- The number of the first row that was never written. -/
def size (t : Table β) : Nat := t.rows.size

/-- Adds a row at the end. -/
def push (t : Table β) (b : β) : Table β := ⟨t.rows.push b⟩

variable [Inhabited β]

def get (t : Table β) (i : Nat) : β := t.rows.getD i default

/-- Replaces a row. -/
def set (t : Table β) (i : Nat) (b : β) : Table β :=
  if h : i < t.rows.size then ⟨t.rows.set i b h⟩
  else ⟨(t.rows ++ Array.replicate (i - t.rows.size) default).push b⟩

def modify (t : Table β) (i : Nat) (f : β → β) : Table β := t.set i (f (t.get i))

theorem get_set (t : Table β) (i j : Nat) (b : β) : (t.set i b).get j = if i = j then b else t.get j := by
  unfold set get
  split
  case isTrue h => simp only [Array.getD_eq_getD_getElem?, Array.getElem?_set]; split <;> simp
  case isFalse h =>
    simp only [Array.getD_eq_getD_getElem?, Array.getElem?_push, Array.getElem?_append, Array.size_append,
      Array.size_replicate, Array.getElem?_replicate]
    grind

theorem get_push (t : Table β) (b : β) (j : Nat) : (t.push b).get j = if j = t.size then b else t.get j := by
  simp only [get, push, size, Array.getD_eq_getD_getElem?, Array.getElem?_push]
  split <;> simp

end Table

end Linkage
