import Linkage.Proofs.Composition
import Linkage.Proofs.Orders
import Linkage.Proofs.Repetition
import Linkage.Sorting.Permutation

/-!
# Linkage.Proofs.Ranking — what residuals and reports tell

The residuals of a system are those of its constraints, measured one after the other (`Measures`), in a stable order of
falling size (`Ranked`).  Where errors are no numbers their sizes do not compare, so the order is that of the sizes that
are numbers with the others behind them (`Residual.precedes`); on errors that are numbers it is the ranking itself.  A
report sums up the residuals that its run leaves (`Sums`), and where no target goes by time, measuring again confirms
it.
-/

namespace Linkage

variable {α : Type} [Scalar α]

namespace Residual

/-- The error is a number. -/
def IsNumber (r : Residual α) : Prop := Scalar.same r.error r.error = true

/-- Sizes in falling order, with what is no number behind them. -/
def precedes (r q : Residual α) : Bool :=
  !Scalar.same q.size q.size || (Scalar.same r.size r.size && !r.isSmaller q)

theorem precedes_iff {r q : Residual α} : r.precedes q = true ↔
    (Scalar.same q.size q.size = true → Scalar.same r.size r.size = true ∧ ¬r.size < q.size) := by
  unfold precedes isSmaller
  cases Scalar.same q.size q.size with
  | false => simp
  | true => simp

variable [Scalar.Ordered α] {r q p : Residual α}

theorem IsNumber.size (h : r.IsNumber) : Scalar.same r.size r.size = true := Scalar.Ordered.same_abs h

theorem precedes_of_number (hr : r.IsNumber) (hq : q.IsNumber) : r.precedes q = !r.isSmaller q := by
  unfold precedes
  rw [hr.size, hq.size]
  rfl

theorem precedes_trans (h : r.precedes q = true) (h' : q.precedes p = true) : r.precedes p = true := by
  rw [precedes_iff] at h h' ⊢
  intro hp
  obtain ⟨hq, hqp⟩ := h' hp
  obtain ⟨hr, hrq⟩ := h hq
  exact ⟨hr, Scalar.Ordered.not_lt_trans hq hrq hqp⟩

theorem precedes_total (r q : Residual α) : (r.precedes q || q.precedes r) = true := by
  rw [Bool.or_eq_true, precedes_iff, precedes_iff]
  by_cases hr : Scalar.same r.size r.size = true
  · by_cases hq : Scalar.same q.size q.size = true
    · by_cases hrq : r.size < q.size
      · exact Or.inr fun _ => ⟨hq, Scalar.Ordered.lt_asymm hrq⟩
      · exact Or.inl fun _ => ⟨hr, hrq⟩
    · exact Or.inl fun h => absurd h hq
  · exact Or.inr fun h => absurd h hr

end Residual

/-! ### Ranking -/

/-- The residuals `rs` are those of `raw` in a stable order of falling size. -/
structure Ranked (rs raw : List (Residual α)) : Prop where
  perm : rs.Perm raw
  falling : rs.Pairwise fun r q => q.size ≤ r.size
  /-- Residuals of one size keep their order. -/
  stable : ∀ q ∈ raw, rs.filter (fun r => Scalar.same r.size q.size) = raw.filter fun r => Scalar.same r.size q.size

/-- Whatever the errors are, none is lost and none is added. -/
theorem rank_perm (raw : List (Residual α)) : (rank raw).Perm raw := by
  unfold rank
  split
  · exact List.mergeSort_perm raw _
  · split
    · next rising hsorted =>
      exact (List.reverse_perm rising).trans ((Sorting.sort_perm hsorted).trans (List.reverse_perm raw))
    · exact List.Perm.refl raw

section Rank

variable [Scalar.Ordered α] {raw : List (Residual α)}

/-- On numbers the ranking is a stable sort by an order. -/
theorem rank_eq_mergeSort (h : ∀ r ∈ raw, r.IsNumber) : rank raw = raw.mergeSort Residual.precedes := by
  have hall : (raw.all fun r => Scalar.same r.size r.size) = true := List.all_eq_true.mpr fun r hr => (h r hr).size
  unfold rank
  rw [if_pos hall]
  have hsame := List.map_mergeSort (r := fun r q : Residual α => !r.isSmaller q) (s := Residual.precedes) (f := id)
    fun r hr q hq => (Residual.precedes_of_number (h r hr) (h q hq)).symm
  simpa using hsame

theorem ranked_rank (h : ∀ r ∈ raw, r.IsNumber) : Ranked (rank raw) raw := by
  rw [rank_eq_mergeSort h]
  have htrans : ∀ r q p : Residual α, r.precedes q = true → q.precedes p = true → r.precedes p = true :=
    fun _ _ _ => Residual.precedes_trans
  have hperm : (raw.mergeSort Residual.precedes).Perm raw := List.mergeSort_perm raw Residual.precedes
  refine ⟨hperm, ?_, fun q hq => ?_⟩
  · refine (List.pairwise_mergeSort htrans Residual.precedes_total raw).imp_of_mem fun {r q} hr hq hrq => ?_
    have hr := (h r (hperm.mem_iff.mp hr)).size
    have hq := (h q (hperm.mem_iff.mp hq)).size
    exact (Scalar.Ordered.le_iff hq hr).mpr (Residual.precedes_iff.mp hrq hq).2
  · -- the residuals of one size are in order as they stand, so sorting keeps them so
    have hqsize := (h q hq).size
    have htied : (raw.filter fun r => Scalar.same r.size q.size).Pairwise fun r p => r.precedes p = true := by
      refine List.pairwise_of_forall_mem_list fun r hr p hp => ?_
      obtain ⟨hr, hrq⟩ := List.mem_filter.mp hr
      obtain ⟨hp, hpq⟩ := List.mem_filter.mp hp
      have hrsize := (h r hr).size
      have hpsize := (h p hp).size
      have hle : p.size ≤ q.size := (Scalar.same_iff.mp hpq).1
      have hge : q.size ≤ r.size := (Scalar.same_iff.mp hrq).2
      refine Residual.precedes_iff.mpr fun _ => ⟨hrsize, ?_⟩
      exact Scalar.Ordered.not_lt_trans hqsize ((Scalar.Ordered.le_iff hqsize hrsize).mp hge)
        ((Scalar.Ordered.le_iff hpsize hqsize).mp hle)
    have hkept := (List.sublist_mergeSort htrans Residual.precedes_total htied List.filter_sublist).filter
      fun r => Scalar.same r.size q.size
    rw [List.filter_filter] at hkept
    simp only [Bool.and_self] at hkept
    exact (hkept.eq_of_length (hperm.filter _).length_eq.symm).symm

/-! ### Summaries -/

/-- `x` is the largest size of residuals, or zero if there are none. -/
structure IsLargest (x : α) (rs : List (Residual α)) : Prop where
  zero : rs = [] → x = 0
  attained : rs ≠ [] → ∃ r ∈ rs, r.size = x
  bound : ∀ r ∈ rs, r.size ≤ x

/-- The head of a ranking is the largest. -/
theorem isLargest_head {rs : List (Residual α)} (hnumbers : ∀ r ∈ rs, r.IsNumber)
    (hfalling : rs.Pairwise fun r q => q.size ≤ r.size) : IsLargest ((rs.head?.map Residual.size).getD 0) rs := by
  cases rs with
  | nil => exact ⟨fun _ => rfl, fun h => absurd rfl h, fun r hr => absurd hr List.not_mem_nil⟩
  | cons first rest =>
    obtain ⟨hrest, -⟩ := List.pairwise_cons.mp hfalling
    refine ⟨(by rintro ⟨⟩), fun _ => ⟨first, List.mem_cons_self, rfl⟩, fun r hr => ?_⟩
    rcases List.mem_cons.mp hr with rfl | hr
    · exact (Scalar.same_iff.mp (hnumbers r List.mem_cons_self).size).1
    · exact hrest r hr

/-- The elements before a position; a negative position counts from the end. -/
theorem getElem?_firstOf {β : Type} (limit : Int) (xs : List β) (i : Nat) :
    (Text.firstOf limit xs)[i]? =
      if (i : Int) < (if 0 ≤ limit then limit else xs.length + limit) then xs[i]? else none := by
  unfold Text.firstOf
  by_cases hlimit : limit < 0
  · have hend : ¬0 ≤ limit := by omega
    rw [if_pos hlimit, if_neg hend, List.getElem?_take]
    by_cases hi : i < xs.length - (-limit).toNat
    · rw [if_pos hi, if_pos (by omega)]
    · rw [if_neg hi, if_neg (by omega)]
  · have hstart : 0 ≤ limit := by omega
    rw [if_neg hlimit, if_pos hstart, List.getElem?_take]
    by_cases hi : i < limit.toNat
    · rw [if_pos hi, if_pos (by omega)]
    · rw [if_neg hi, if_neg (by omega)]

end Rank

namespace Act

/-! ### Measuring -/

/-- Measured one after the other, the constraints of a list have these residuals each. -/
inductive Measures : List ConstraintId → Assembly α → List (List (Residual α)) → Prop where
  | nil (a : Assembly α) : Measures [] a []
  | cons {c : ConstraintId} {rest : List ConstraintId} {a b : Assembly α} {here : List (Residual α)}
      {later : List (List (Residual α))} (first : Runs (residualsOf c) a fun r a' => r = .ok here ∧ a' = b)
      (others : Measures rest b later) : Measures (c :: rest) a (here :: later)

theorem runs_residualsOfAll_measures (cs : List ConstraintId) (a : Assembly α) : Runs (residualsOfAll cs) a fun r _ =>
    ∀ raw, r = .ok raw → ∃ lists, Measures cs a lists ∧ raw = lists.flatten := by
  induction cs generalizing a with
  | nil => exact runs_pure fun raw hraw => ⟨[], .nil a, by cases hraw; rfl⟩
  | cons c rest ih =>
    intro j raw hraw
    obtain ⟨here, hhere, hraw⟩ := answer_bind_eq_ok hraw
    obtain ⟨later, hlater, hraw⟩ := answer_bind_eq_ok hraw
    cases hraw
    obtain ⟨lists, hlists, rfl⟩ := ih _ ((residualsOf c).after ⟨a, j⟩).journal later hlater
    exact ⟨here :: lists, .cons ((composed_residualsOf c).runs_of_answer hhere) hlists, rfl⟩

theorem runs_residuals_measures (s : SystemId) (a : Assembly α) : Runs (residuals s) a fun r _ => ∀ rs, r = .ok rs →
    ∃ lists, Measures (a.system s).constraints a lists ∧ rs = rank lists.flatten := by
  refine runs_traced (runs_read (runs_bind_pure ((runs_residualsOfAll_measures _ a).mono fun r b h rs hrs => ?_)))
    writable_residuals
  cases r with
  | error fault => cases hrs
  | ok raw =>
    cases hrs
    obtain ⟨lists, hlists, rfl⟩ := h raw rfl
    exact ⟨lists, hlists, rfl⟩

/-! ### Measuring again -/

open Assembly (Coherent Corrected SameScene)

section Again

variable {made : List Reference} {cs : List ConstraintId} {a b : Assembly α}

theorem blind_residualsOf_sameScene {c : ConstraintId} (hc : c ∈ cs) :
    Blind (SameScene made cs) (residualsOf (α := α) c) := by
  -- each residual is the difference of a target and the quantity itself, and both are read from the scene
  have hlength : Blind (SameScene made cs) (lengthResidual (α := α) c) := by
    refine blind_read fun a b hab => ?_
    dsimp only
    rw [hab.shape, hab.id]
    split
    · exact agree_pure rfl hab
    · refine agree_bind (agree_targetLength hab hc) fun target? _ a' b' htarget hab' => ?_
      subst htarget
      cases target? with
      | none => exact agree_pure rfl hab'
      | some target =>
        have hown : Blind (SameScene made cs) (ownLength (α := α) c) := blind_read fun a b hab => by
          rw [hab.length]
          exact agree_ofExcept _ hab
        exact hown.bind (fun _ => blind_pure _) a' b' hab'
  have hangle : Blind (SameScene made cs) (angleResidual (α := α) c) := by
    refine blind_read fun a b hab => ?_
    dsimp only
    rw [hab.id]
    refine agree_bind (agree_targetAngle hab hc) fun target? _ a' b' htarget hab' => ?_
    subst htarget
    cases target? with
    | none => exact agree_pure rfl hab'
    | some target =>
      have hown : Blind (SameScene made cs) (ownAngle (α := α) c) := blind_read fun a b hab => by
        rw [hab.angle]
        exact agree_pure rfl hab
      exact hown.bind (fun _ => blind_pure _) a' b' hab'
  exact hlength.bind fun _ => hangle.bind fun _ => blind_pure _

theorem blind_residualsOfAll_sameScene {some : List ConstraintId} (hsome : some ⊆ cs) :
    Blind (SameScene made cs) (residualsOfAll (α := α) some) := by
  induction some with
  | nil => exact blind_pure []
  | cons c rest ih =>
    obtain ⟨hc, hrest⟩ := List.cons_subset.mp hsome
    exact (blind_residualsOf_sameScene hc).bind fun here => (ih hrest).bind fun later => blind_pure _

theorem agree_residuals_sameScene {s : SystemId} (hab : SameScene made (a.system s).constraints a b) :
    Agree Eq (SameScene made (a.system s).constraints) (residuals s) (residuals s) a b := by
  refine agree_traced (agree_read ?_) writable_residuals writable_residuals
  rw [hab.system]
  exact (blind_residualsOfAll_sameScene (List.Subset.refl _)).bind (fun _ => blind_pure _) a b hab

end Again

/-! ### Reports -/

/-- A report sums up a run from `st` that ends with the residuals `rs`. -/
structure Sums (s : SystemId) (limit : Option Int) (st : Session α) (report : Report α) (rs : List (Residual α)) :
    Prop where
  iterations : (correct s).answer st = .ok report.iterations
  converged : report.converged = true ↔ 1 ≤ report.iterations
  /-- The residuals are those of the system as the run leaves it, and measuring them moves nothing. -/
  measured : (residuals s).answer ((correct s).after st) = .ok rs
  nodes : ((solve s limit).after st).assembly.node = ((correct s).after st).assembly.node
  /-- Where targets have the same values at any moment, they can be measured again. -/
  again : ∀ made, Coherent made st.assembly →
    (∀ c ∈ (st.assembly.system s).constraints, (st.assembly.constraint c).Timeless) →
      (residuals s).answer ((solve s limit).after st) = .ok rs
  largest : (∀ r ∈ rs, r.IsNumber) → IsLargest report.maxResidual rs
  /-- The residuals before the limit; a negative one counts from the end. -/
  worst : ∀ i : Nat, report.worst[i]? =
    if (i : Int) < (if 0 ≤ limit.getD shownResiduals then limit.getD shownResiduals
      else rs.length + limit.getD shownResiduals) then rs[i]? else none

/-- The residuals of a system are the ranking of those of its constraints. -/
theorem answer_residuals {st : Session α} {s : SystemId} {raw : List (Residual α)}
    (h : (residualsOfAll (st.assembly.system s).constraints).answer st = .ok raw) :
    (residuals s).answer st = .ok (rank raw) := by
  have hruns : Runs (residuals s) st.assembly fun r _ => r = .ok (rank raw) := by
    refine runs_traced (runs_read (runs_bind_pure (((composed_residualsOfAll _).runs_of_answer h).mono fun r b hr => ?_)))
      writable_residuals
    rw [hr.1]
    rfl
  exact hruns.at_session

/-- Solving returns a report where the limit can be written, the run returns, and every target of the system can be
measured after it. -/
theorem exists_answer_solve {st : Session α} {s : SystemId} {limit : Option Int} {n : Nat} {rs : List (Residual α)}
    (hlimit : ∀ room, (Operation.solve s limit : Operation α).refusal? room = none)
    (hcorrect : (correct s).answer st = .ok n) (hmeasured : (residuals s).answer ((correct s).after st) = .ok rs) :
    ∃ report, (solve s limit).answer st = .ok report := by
  have hruns : Runs (solve s limit) st.assembly fun r _ => ∃ report, r = .ok report := by
    refine runs_traced_given (fun room fault hfault => ?_)
      (runs_bind (((composed_correct s).runs_of_answer hcorrect).mono ?_))
    · cases (hlimit room).symm.trans hfault
    rintro _ _ ⟨rfl, rfl⟩
    rw [then_ok]
    refine runs_bind (((composed_residuals s).runs_of_answer hmeasured).mono ?_)
    rintro _ _ ⟨rfl, rfl⟩
    rw [then_ok]
    exact runs_read (runs_pure ⟨_, rfl⟩)
  exact hruns.at_session

/-- A run that is solved, and the measurement after it. -/
theorem runs_solve_measured (s : SystemId) (limit : Option Int) (st : Session α) :
    Runs (solve s limit) st.assembly fun r b => ∀ report, r = .ok report → ∃ rs,
      (correct s).answer st = .ok report.iterations ∧ (residuals s).answer ((correct s).after st) = .ok rs ∧
      b = ((residuals s).after ((correct s).after st)).assembly ∧
      report.converged = decide (0 < report.iterations) ∧ report.freedom = b.freedom s ∧
      report.maxResidual = (rs.head?.map Residual.size).getD 0 ∧
      report.worst = Text.firstOf (limit.getD shownResiduals) rs := by
  refine runs_traced_given (fun _ fault _ => by rintro report ⟨⟩)
    (runs_bind (((composed_correct s).runs_of_answer rfl).mono fun r b hcorrect => ?_))
  obtain ⟨rfl, rfl⟩ := hcorrect
  cases hcorrect : (correct s).answer st with
  | error fault => rintro report ⟨⟩
  | ok iterations =>
    rw [then_ok]
    refine runs_bind (((composed_residuals s).runs_of_answer rfl).mono fun r b hmeasured => ?_)
    obtain ⟨rfl, rfl⟩ := hmeasured
    cases hmeasured : (residuals s).answer ((correct s).after st) with
    | error fault => rintro report ⟨⟩
    | ok rs =>
      rw [then_ok]
      refine runs_read (runs_pure ?_)
      rintro report ⟨⟩
      refine ⟨rs, rfl, rfl, rfl, rfl, rfl, ?_, rfl⟩
      cases rs with
      | nil => rfl
      | cons first rest => rfl

variable [Scalar.Ordered α]

/-- Residuals are those of the constraints in a stable order of falling size, and a report tells what the run was, the
largest of the residuals that it leaves and the first of them. -/
theorem solve_sums (st : Session α) (s : SystemId) :
    (∀ rs, (residuals s).answer st = .ok rs → (∀ r ∈ rs, r.IsNumber) →
      ∃ lists, Measures (st.assembly.system s).constraints st.assembly lists ∧ Ranked rs lists.flatten) ∧
    ∀ limit report, (solve s limit).answer st = .ok report → ∃ rs, Sums s limit st report rs := by
  have hranked (st : Session α) (rs : List (Residual α)) (hanswer : (residuals s).answer st = .ok rs)
      (hnumbers : ∀ r ∈ rs, r.IsNumber) :
      ∃ lists, Measures (st.assembly.system s).constraints st.assembly lists ∧ Ranked rs lists.flatten := by
    obtain ⟨lists, hlists, rfl⟩ := (runs_residuals_measures s st.assembly).at_session rs hanswer
    refine ⟨lists, hlists, ranked_rank fun r hr => hnumbers r ((rank_perm lists.flatten).mem_iff.mpr hr)⟩
  refine ⟨hranked st, fun limit report hreport => ?_⟩
  obtain ⟨rs, hcorrect, hmeasured, hafter, hconverged, -, hmax, hworst⟩ :=
    (runs_solve_measured s limit st).at_session report hreport
  -- measuring changes the memory at most, so that what is measured again afterwards is the same
  have hmeasuring : Corrected [] ((correct s).after st).assembly ((solve s limit).after st).assembly := by
    rw [hafter]
    exact (keeps_residuals s ((correct s).after st).assembly).at_session
  refine ⟨rs, ⟨hcorrect, ?_, hmeasured, ?_, ?_, fun hnumbers => ?_, fun i => ?_⟩⟩
  · rw [hconverged, decide_eq_true_iff]
    exact Iff.rfl
  · exact funext fun n => hmeasuring.outside n List.not_mem_nil
  · intro made hcoherent htimeless
    have hrelaxed := (relaxed_correct s st.assembly).at_session
    have hscene : SameScene made (((correct s).after st).assembly.system s).constraints
        ((correct s).after st).assembly ((solve s limit).after st).assembly :=
      { toSamePlan := hmeasuring.samePlan
        node := funext fun n => hmeasuring.outside n List.not_mem_nil
        coherent := hcoherent.relaxed hrelaxed
        coherent' := (hcoherent.relaxed hrelaxed).relaxed hmeasuring.relaxed
        timeless := fun c hc => by
          rw [hrelaxed.system] at hc
          unfold Constraint.Timeless
          rw [hrelaxed.targets]
          exact htimeless c hc }
    have hagree := ((agree_residuals_sameScene hscene).at_session.at_session).1
    rw [hmeasured] at hagree
    exact hagree.eq.symm
  · obtain ⟨lists, -, hlists⟩ := hranked ((correct s).after st) rs hmeasured hnumbers
    rw [hmax]
    exact isLargest_head hnumbers hlists.falling
  · rw [hworst]
    exact getElem?_firstOf _ rs i

/-- The two bars that cannot both have their lengths are too short by the same amount. -/
theorem solve_sums_torn : ∃ rs report, (residuals 0).answer tornSession = .ok rs ∧ (∀ r ∈ rs, r.error = -1) ∧
    (solve 0 (some (-1))).answer tornSession = .ok report ∧
    (∃ lists, Measures (tornSession.assembly.system 0).constraints tornSession.assembly lists ∧
      Ranked rs lists.flatten) ∧ ∃ rs', Sums 0 (some (-1)) tornSession report rs' := by
  -- what can be computed are the errors, since identifiers and names are texts
  have herrors : ((residualsOfAll (tornSession.assembly.system 0).constraints).answer tornSession).toOption.map
      (fun raw => raw.map Residual.error) = some [-1, -1] := by decide +kernel
  have hcorrect : (correct 0).answer tornSession = .ok 0 := eq_ok_of_toOption (by decide +kernel)
  have hmeasured : ((residualsOfAll (((correct 0).after tornSession).assembly.system 0).constraints).answer
      ((correct 0).after tornSession)).toOption.isSome = true := by decide +kernel
  obtain ⟨raw, hraw, hmap⟩ := Option.map_eq_some_iff.mp herrors
  obtain ⟨left, hleft⟩ := Option.isSome_iff_exists.mp hmeasured
  have hresiduals : (residuals 0).answer tornSession = .ok (rank raw) := answer_residuals (eq_ok_of_toOption hraw)
  have hlimit (room : Nat) : (Operation.solve 0 (some (-1)) : Operation Float).refusal? room = none :=
    Call.refusal?_withInteger (by rintro _ ⟨⟩; exact Text.isTooLong_eq_false (by decide)) room
  obtain ⟨report, hreport⟩ : ∃ report, (solve 0 (some (-1))).answer tornSession = .ok report :=
    exists_answer_solve hlimit hcorrect (answer_residuals (eq_ok_of_toOption hleft))
  have hone : ∀ r ∈ rank raw, r.error = -1 := by
    intro r hr
    have herror : r.error ∈ [-1, -1] := hmap ▸ List.mem_map_of_mem ((rank_perm raw).mem_iff.mp hr)
    simpa using herror
  have hnumbers : ∀ r ∈ rank raw, r.IsNumber := by
    intro r hr
    unfold Residual.IsNumber
    rw [hone r hr]
    decide +kernel
  obtain ⟨hranked, hsums⟩ := solve_sums tornSession 0
  exact ⟨rank raw, report, hresiduals, hone, hreport, hranked (rank raw) hresiduals hnumbers,
    hsums (some (-1)) report hreport⟩

end Act

end Linkage
