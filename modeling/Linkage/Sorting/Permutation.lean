import Linkage.Sorting

/-!
# Linkage.Sorting.Permutation — sorting loses nothing

Every step of the sort only moves elements.  Main statement: `sort_perm`, for every comparison, also one that is no
order.
-/

namespace Linkage.Sorting

variable {β : Type}

theorem insertAll_perm {less : β → β → Option Bool} {xs sorted ys : List β}
    (h : insertAll less sorted xs = some ys) : ys.Perm (sorted ++ xs) := by
  induction xs generalizing sorted with
  | nil => simp_all [insertAll]
  | cons b rest ih =>
    simp only [insertAll, Option.bind_eq_bind, Option.bind_eq_some_iff] at h
    obtain ⟨place, -, h⟩ := h
    refine (ih h).trans ?_
    rw [List.append_assoc, List.cons_append]
    refine List.perm_middle.trans (.trans ?_ List.perm_middle.symm)
    rw [← List.append_assoc, List.take_append_drop]

theorem nextRun_perm {less : β → β → Option Bool} {least : Nat} {b : β} {rest run more : List β}
    (h : nextRun less least b rest = some (run, more)) : (run ++ more).Perm (b :: rest) := by
  simp only [nextRun, Option.bind_eq_bind, Option.bind_eq_some_iff, Option.pure_def, Option.some.injEq,
    Prod.mk.injEq] at h
  obtain ⟨⟨falling, count⟩, -, items, hitems, rfl, rfl⟩ := h
  refine ((insertAll_perm hitems).append_right _).trans ?_
  rw [List.append_assoc, List.take_append_drop]
  have hrun : (if falling then (b :: rest.take count).reverse else b :: rest.take count).Perm
      (b :: rest.take count) := by
    split
    · exact List.reverse_perm _
    · exact .refl _
  refine (hrun.append_right _).trans ?_
  rw [List.cons_append, List.take_append_drop]

namespace Merge

theorem result_moveShort (m : Merge β) : m.moveShort.result.Perm m.result := by
  obtain ⟨moved, short, long, patience⟩ := m
  cases short with
  | nil => exact .refl _
  | cons b rest =>
    simp only [moveShort, result, List.append_assoc, List.singleton_append]
    exact List.perm_middle.symm.append_left moved

theorem result_moveLong (m : Merge β) : m.moveLong.result.Perm m.result := by
  obtain ⟨moved, short, long, patience⟩ := m
  cases long <;> simp [moveLong, result]

variable {ahead : β → β → Option Bool} {fromEnd : Bool}

theorem shortBlock_perm {m m' : Merge β} {n : Nat} (h : shortBlock ahead fromEnd m = some (m', n)) :
    m'.result.Perm m.result := by
  unfold shortBlock at h
  split at h
  · simp_all
  · simp only [Option.bind_eq_bind, Option.bind_eq_some_iff, Option.pure_def, Option.some.injEq, Prod.mk.injEq] at h
    obtain ⟨count, -, rfl, rfl⟩ := h
    have hblock : (Merge.result { m with
        moved := m.moved ++ m.short.take count, short := m.short.drop count }).Perm m.result := by
      simp only [result, List.append_assoc]
      refine .append_left _ ?_
      rw [← List.append_assoc]
      refine (List.perm_append_comm.append_right _).trans ?_
      rw [List.append_assoc, List.take_append_drop]
    split
    · exact hblock
    · exact (result_moveLong _).trans hblock

theorem longBlock_perm {m m' : Merge β} {n : Nat} (h : longBlock ahead fromEnd m = some (m', n)) :
    m'.result.Perm m.result := by
  unfold longBlock at h
  split at h
  · simp_all
  · simp only [Option.bind_eq_bind, Option.bind_eq_some_iff, Option.pure_def, Option.some.injEq, Prod.mk.injEq] at h
    obtain ⟨count, -, rfl, rfl⟩ := h
    have hblock : Merge.result { m with
        moved := m.moved ++ m.long.take count, long := m.long.drop count } = m.result := by
      simp only [result, List.append_assoc]
      rw [← List.append_assoc (m.long.take count), List.take_append_drop]
    split
    · rw [hblock]
    · exact hblock ▸ result_moveShort _

theorem single_perm {m m' : Merge β} {mode : Mode} {i j : Nat} (h : single ahead m i j = some (m', mode)) :
    m'.result.Perm m.result := by
  unfold single at h
  split at h
  · simp only [Option.bind_eq_bind, Option.bind_eq_some_iff] at h
    obtain ⟨first, -, h⟩ := h
    cases first
    · simp only [Bool.false_eq_true, if_false, Option.pure_def, Option.some.injEq, Prod.mk.injEq] at h
      exact h.1 ▸ result_moveShort m
    · simp only [if_true, Option.pure_def, Option.some.injEq, Prod.mk.injEq] at h
      exact h.1 ▸ result_moveLong m
  · simp_all

theorem oneBlock_perm {m m' : Merge β} {n : Nat} {ofLong : Bool}
    (h : oneBlock ahead fromEnd ofLong m = some (m', n)) : m'.result.Perm m.result := by
  unfold oneBlock at h
  split at h
  · exact longBlock_perm h
  · exact shortBlock_perm h

theorem block_perm {m m' : Merge β} {mode : Mode} (h : block ahead fromEnd m = some (m', mode)) :
    m'.result.Perm m.result := by
  simp only [block, Option.bind_eq_bind, Option.bind_eq_some_iff] at h
  obtain ⟨⟨m₁, p⟩, h₁, h⟩ := h
  have e₁ := oneBlock_perm h₁
  dsimp only at h
  split at h
  · simp_all
  · simp only [Option.bind_eq_some_iff] at h
    obtain ⟨⟨m₂, q⟩, h₂, h⟩ := h
    have e₂ := (oneBlock_perm h₂).trans e₁
    dsimp only at h
    split at h
    · simp_all
    · split at h <;> (simp only [Option.pure_def, Option.some.injEq, Prod.mk.injEq] at h; exact h.1 ▸ e₂)

theorem round_perm {m m' : Merge β} {mode mode' : Mode} (h : round ahead fromEnd m mode = some (m', mode')) :
    m'.result.Perm m.result := by
  cases mode with
  | single i j => exact single_perm h
  | blocks => exact block_perm h

theorem run_perm {rounds : Nat} {m m' : Merge β} {mode : Mode} (h : run ahead fromEnd rounds m mode = some m') :
    m'.result.Perm m.result := by
  induction rounds generalizing m mode with
  | zero => simp_all [run]
  | succ rounds ih =>
    simp only [run] at h
    split at h
    · simp_all
    · simp only [Option.bind_eq_bind, Option.bind_eq_some_iff] at h
      obtain ⟨⟨m₁, mode₁⟩, h₁, h⟩ := h
      refine (ih h).trans ?_
      exact round_perm h₁

end Merge

theorem mergeOverlap_perm {less : β → β → Option Bool} {patience p : Nat} {a b items : List β}
    (h : mergeOverlap less patience a b = some (items, p)) : items.Perm (a ++ b) := by
  unfold mergeOverlap at h
  split at h
  · simp only [Option.bind_eq_bind, Option.bind_eq_some_iff, Option.pure_def, Option.some.injEq, Prod.mk.injEq] at h
    obtain ⟨m, hm, rfl, -⟩ := h
    refine (Merge.run_perm hm).trans ((Merge.result_moveLong _).trans ?_)
    simpa [Merge.result] using List.perm_append_comm
  · simp only [Option.bind_eq_bind, Option.bind_eq_some_iff, Option.pure_def, Option.some.injEq, Prod.mk.injEq] at h
    obtain ⟨m, hm, rfl, -⟩ := h
    refine (List.reverse_perm _).trans ((Merge.run_perm hm).trans ((Merge.result_moveLong _).trans ?_))
    exact (List.reverse_perm a).append (List.reverse_perm b)

theorem merge_perm {less : β → β → Option Bool} {patience p : Nat} {a b items : List β}
    (h : merge less patience a b = some (items, p)) : items.Perm (a ++ b) := by
  unfold merge at h
  split at h
  · simp_all
  · simp only [Option.bind_eq_bind, Option.bind_eq_some_iff] at h
    obtain ⟨i, -, h⟩ := h
    split at h
    · simp_all
    · simp only [Option.bind_eq_some_iff] at h
      obtain ⟨j, -, h⟩ := h
      split at h
      · simp_all
      · simp only [Option.bind_eq_some_iff, Option.pure_def, Option.some.injEq, Prod.mk.injEq] at h
        obtain ⟨⟨middle, p'⟩, hm, rfl, -⟩ := h
        have e := mergeOverlap_perm hm
        refine ((e.append_left _).append_right _).trans ?_
        rw [← List.append_assoc, List.take_append_drop, List.append_assoc, List.take_append_drop]

namespace Waiting

/-- The elements of runs that wait. -/
def items (runs : List (Run β)) : List β := runs.flatMap Run.items

variable {less : β → β → Option Bool}

theorem settle_perm {depth patience : Nat} {runs : List (Run β)} {w : Waiting β}
    (h : settle less depth runs patience = some w) : (items w.runs).Perm (items runs) := by
  fun_induction settle less depth runs patience with
  | case1 patience b a rest hdepth ih =>
    simp only [Option.bind_eq_bind, Option.bind_eq_some_iff] at h
    obtain ⟨⟨merged, p⟩, hm, h⟩ := h
    refine (ih _ _ h).trans ?_
    simp only [items, List.flatMap_cons]
    rw [← List.append_assoc]
    exact ((merge_perm hm).trans List.perm_append_comm).append_right _
  | case2 =>
    simp only [Option.some.injEq] at h
    exact h ▸ .refl _
  | case3 =>
    simp only [Option.some.injEq] at h
    exact h ▸ .refl _

theorem add_perm {total : Nat} {w w' : Waiting β} {run : List β} (h : add less total w run = some w') :
    (items w'.runs).Perm (items w.runs ++ run) := by
  unfold add at h
  split at h
  · rename_i hw
    simp only [Option.some.injEq] at h
    simp [← h, hw, items]
  · simp only [Option.bind_eq_bind, Option.bind_eq_some_iff, Option.pure_def, Option.some.injEq] at h
    obtain ⟨settled, hs, rfl⟩ := h
    refine .trans ?_ ((settle_perm hs).append_right run)
    refine .trans ?_ List.perm_append_comm
    cases settled.runs <;> exact .refl _

theorem mergeAll_perm {runs : List (Run β)} {patience : Nat} {ys : List β}
    (h : mergeAll less runs patience = some ys) : ys.Perm (items runs) := by
  fun_induction mergeAll less runs patience with
  | case1 => simp_all [items]
  | case2 => simp_all [items]
  | case3 patience b a =>
    simp only [Option.bind_eq_bind, Option.bind_eq_some_iff, Option.pure_def, Option.some.injEq] at h
    obtain ⟨⟨merged, p⟩, hm, rfl⟩ := h
    simpa [items] using (merge_perm hm).trans List.perm_append_comm
  | case4 patience c b a rest hlen ih =>
    simp only [Option.bind_eq_bind, Option.bind_eq_some_iff] at h
    obtain ⟨⟨merged, p⟩, hm, h⟩ := h
    refine (ih _ _ h).trans ?_
    simp only [items, List.flatMap_cons]
    rw [← List.append_assoc b.items]
    exact (((merge_perm hm).trans List.perm_append_comm).append_right _).append_left _
  | case5 patience c b a rest hlen ih =>
    simp only [Option.bind_eq_bind, Option.bind_eq_some_iff] at h
    obtain ⟨⟨merged, p⟩, hm, h⟩ := h
    refine (ih _ _ h).trans ?_
    simp only [items, List.flatMap_cons]
    rw [← List.append_assoc c.items]
    exact ((merge_perm hm).trans List.perm_append_comm).append_right _

theorem addAll_perm {total least fuel : Nat} {xs ys : List β} {w : Waiting β}
    (h : addAll less total least xs w fuel = some ys) : ys.Perm (items w.runs ++ xs) := by
  induction fuel generalizing xs w with
  | zero =>
    simp only [addAll, Option.bind_eq_bind, Option.bind_eq_some_iff, Option.pure_def, Option.some.injEq] at h
    obtain ⟨merged, hm, rfl⟩ := h
    exact (mergeAll_perm hm).append_right xs
  | succ fuel ih =>
    cases xs with
    | nil => simpa using mergeAll_perm h
    | cons b rest =>
      simp only [addAll, Option.bind_eq_bind, Option.bind_eq_some_iff] at h
      obtain ⟨⟨run, more⟩, hrun, w', hadd, h⟩ := h
      refine (ih h).trans (((add_perm hadd).append_right more).trans ?_)
      rw [List.append_assoc]
      exact (nextRun_perm hrun).append_left _

end Waiting

/-- What is sorted is a permutation, whatever the comparison. -/
theorem sort_perm {less : β → β → Option Bool} {xs ys : List β} (h : sort less xs = some ys) : ys.Perm xs := by
  simpa [Waiting.items] using Waiting.addAll_perm h

end Linkage.Sorting
