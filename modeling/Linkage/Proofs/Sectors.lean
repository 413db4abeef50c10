import Linkage.Proofs.Deviation
import Linkage.Proofs.Memory
import Linkage.Proofs.Stretching

/-!
# Linkage.Proofs.Sectors — angles kept in a sector around that of another constraint

Some computed targets wrap the deviation of their owner's angle from that of another constraint, move it into a sector and
add the other angle again (`Formula.Relative`).  In exact arithmetic the wanted angle deviates by one of the sector, and an
owner that has taken it is wanted there, wherever the angles and their difference cross the cut (`evaluate_stays`).  An
owner that is in the sector by itself is left alone, but for one case: half a turn is always wrapped to `π`, so where the
sector has it as its lower end `-π` only, the owner is sent from there to the upper end (`evaluate_admits`).
-/

namespace Linkage

/-! ### Sectors -/

namespace Scalar

theorem quarterTurn_real : (quarterTurn : ℝ) = Real.pi / 2 := congrArg (Real.pi / ·) one_add_one_eq_two

theorem quarterTurn_pos : 0 < (quarterTurn : ℝ) := by
  rw [quarterTurn_real]
  exact half_pos Real.pi_pos

theorem quarterTurn_lt_pi : (quarterTurn : ℝ) < Real.pi := by
  rw [quarterTurn_real]
  exact half_lt_self Real.pi_pos

section Clamp

variable {x least most : ℝ}

theorem clamp_real (x least most : ℝ) : Scalar.clamp x least most = Min.min (Max.max x least) most := by
  unfold clamp
  rw [max_real, min_real]

theorem clamp_mem (h : least ≤ most) : Scalar.clamp x least most ∈ Set.Icc least most := by
  rw [clamp_real]
  exact ⟨le_min (le_max_right x least) h, min_le_right _ _⟩

theorem clamp_of_mem (h : x ∈ Set.Icc least most) : Scalar.clamp x least most = x := by
  rw [clamp_real, max_eq_left h.1, min_eq_left h.2]

theorem clamp_of_le (h : most ≤ x) : Scalar.clamp x least most = most := by
  rw [clamp_real]
  exact min_eq_right (h.trans (le_max_left x least))

/-- A clamp does not reach what is below both the number and the upper end. -/
theorem lt_clamp {bound : ℝ} (hx : bound < x) (hmost : bound < most) : bound < Scalar.clamp x least most := by
  rw [clamp_real]
  exact lt_min (lt_max_of_lt_left hx) hmost

end Clamp

theorem coe_neg_pi : ((-Real.pi : ℝ) : Real.Angle) = Real.pi := by
  rw [Real.Angle.coe_neg, Real.Angle.neg_coe_pi]

/-- An angle that differs by whole turns from one in `[-π, π]` is wrapped to that, or to `π` if that is `-π`. -/
theorem wrap_of_coe {x y : ℝ} (hy : y ∈ Set.Icc (-Real.pi) Real.pi) (h : (x : Real.Angle) = y) :
    Scalar.wrap x = y ∨ y = -Real.pi ∧ Scalar.wrap x = Real.pi := by
  rw [wrap_real, h]
  rcases hy.1.eq_or_lt with rfl | hlt
  · right
    rw [coe_neg_pi, Real.Angle.toReal_pi]
    exact ⟨rfl, rfl⟩
  · left
    exact Real.Angle.toReal_coe_eq_self_iff.mpr ⟨hlt, hy.2⟩

theorem wrap_of_coe_pi {x : ℝ} (h : (x : Real.Angle) = Real.pi) : Scalar.wrap x = Real.pi := by
  rw [wrap_real, h, Real.Angle.toReal_pi]

end Scalar

/-- A deviation is one of the sector, up to whole turns. -/
def Admits (sector : Set ℝ) (x : ℝ) : Prop := ∃ y ∈ sector, (x : Real.Angle) = y

/-- A deviation of half a turn, which a sector of more than one angle may have at its lower end `-π` but not at `π`. -/
def Torn (sector : Set ℝ) (x : ℝ) : Prop := (x : Real.Angle) = Real.pi ∧ Real.pi ∉ sector ∧ sector ≠ {-Real.pi}

/-- `f` moves deviations into a sector. -/
structure KeepsIn (sector : Set ℝ) (f : ℝ → ℝ) : Prop where
  narrow : sector ⊆ Set.Icc (-Real.pi) Real.pi
  mem : ∀ x, f x ∈ sector
  /-- What has been moved stays, whole turns apart. -/
  again : ∀ x y : ℝ, (y : Real.Angle) = f x → f y = f x
  /-- What is in the sector stays, -/
  admits : ∀ x, Admits sector x → ¬Torn sector x → (f x : Real.Angle) = x
  /-- unless it is wrapped out of it, at the lower end: it is moved to the upper end then. -/
  torn : ∀ x, Torn sector x → IsGreatest sector (f x)

section Sectors

variable {least most x y : ℝ}

/-- The upper end of a sector is not the lower one, if that can be torn. -/
theorem KeepsIn.not_coe_of_torn {sector : Set ℝ} {f : ℝ → ℝ} (h : KeepsIn sector f) (htorn : Torn sector x) :
    (f x : Real.Angle) ≠ x := by
  have hgreatest := h.torn x htorn
  obtain ⟨hhalf, hpi, hlone⟩ := htorn
  intro hsame
  have hwrap := Scalar.wrap_of_coe_pi (rfl : ((Real.pi : ℝ) : Real.Angle) = Real.pi)
  rcases Scalar.wrap_of_coe (h.narrow (h.mem x)) (hhalf.symm.trans hsame.symm) with hupper | ⟨hlower, -⟩
  · rw [hwrap] at hupper
    exact hpi (hupper ▸ h.mem x)
  · refine hlone (Set.eq_singleton_iff_unique_mem.mpr ⟨hlower ▸ h.mem x, fun z hz => ?_⟩)
    exact le_antisymm (hlower ▸ hgreatest.2 hz) (h.narrow hz).1

/-- Nothing is wrapped to `-π`, so a clamp to more than that does not come there. -/
theorem le_of_clamp_wrap (h : Scalar.clamp (Scalar.wrap x) least most = -Real.pi) : most ≤ -Real.pi := by
  by_contra hmost
  exact (Scalar.lt_clamp (Scalar.wrap_mem x).1 (not_le.mp hmost)).ne' h

/-- A clamp of the wrapped deviation to an interval. -/
theorem keepsIn_clamp (hleast : -Real.pi ≤ least) (h : least ≤ most) (hmost : most ≤ Real.pi) :
    KeepsIn (Set.Icc least most) fun x => Scalar.clamp (Scalar.wrap x) least most where
  narrow := Set.Icc_subset_Icc hleast hmost
  mem x := Scalar.clamp_mem h
  again x y hy := by
    have hmem : Scalar.clamp (Scalar.wrap x) least most ∈ Set.Icc least most := Scalar.clamp_mem h
    rcases Scalar.wrap_of_coe (Set.Icc_subset_Icc hleast hmost hmem) hy with hwrap | ⟨hlower, -⟩
    · rw [hwrap, Scalar.clamp_of_mem hmem]
    · -- then the sector has no other angle
      have hlone : most ≤ least := (le_of_clamp_wrap hlower).trans hleast
      have hmem' : Scalar.clamp (Scalar.wrap y) least most ∈ Set.Icc least most := Scalar.clamp_mem h
      exact le_antisymm (hmem'.2.trans (hlone.trans hmem.1)) (hmem.2.trans (hlone.trans hmem'.1))
  admits x hx hwhole := by
    obtain ⟨y, hy, hxy⟩ := hx
    rcases Scalar.wrap_of_coe (Set.Icc_subset_Icc hleast hmost hy) hxy with hwrap | ⟨rfl, hwrap⟩
    · rw [hwrap, Scalar.clamp_of_mem hy, hxy]
    · rw [Scalar.coe_neg_pi] at hxy
      rw [hwrap, Scalar.clamp_of_le hmost, hxy]
      by_cases hpi : Real.pi ∈ Set.Icc least most
      · rw [le_antisymm hmost hpi.2]
      · have hlone : Set.Icc least most = {-Real.pi} := by
          by_contra hlone
          exact hwhole ⟨hxy, hpi, hlone⟩
        have hlower : most ∈ ({-Real.pi} : Set ℝ) := hlone ▸ Set.right_mem_Icc.mpr h
        rw [hlower, Scalar.coe_neg_pi]
  torn x htorn := by
    rw [Scalar.wrap_of_coe_pi htorn.1, Scalar.clamp_of_le hmost]
    exact isGreatest_Icc h

end Sectors

/-! #### At least a quarter turn -/

/-- The deviations of a quarter turn and more, on either side. -/
def obtuseSector : Set ℝ :=
  Set.Icc Scalar.quarterTurn Real.pi ∪ Set.Icc (-Real.pi) (-Scalar.quarterTurn)

section Obtuse

open Assembly (keptObtuse)

variable {v x : ℝ}

theorem keptObtuse_eq (angle w : ℝ) : keptObtuse angle w = keptObtuse (angle - w) 0 + w := by
  unfold keptObtuse
  dsimp only
  rw [sub_zero]
  split
  · rw [add_zero]
  · rw [add_zero]

/-- It is kept by the side that it is wrapped to. -/
theorem keptObtuse_zero (x : ℝ) : keptObtuse x 0 = if 0 ≤ Scalar.wrap x then
      Scalar.clamp (Scalar.wrap x) Scalar.quarterTurn Real.pi
    else Scalar.clamp (Scalar.wrap x) (-Real.pi) (-Scalar.quarterTurn) := by
  unfold keptObtuse
  dsimp only
  rw [sub_zero, add_zero, add_zero]
  rfl

theorem keptObtuse_mem (x : ℝ) : keptObtuse x 0 ∈ obtuseSector ∧ -Real.pi < keptObtuse x 0 := by
  have hquarter := Scalar.quarterTurn_pos
  have hless := Scalar.quarterTurn_lt_pi
  rw [keptObtuse_zero]
  split
  · have hmem : Scalar.clamp (Scalar.wrap x) Scalar.quarterTurn Real.pi ∈ Set.Icc Scalar.quarterTurn Real.pi :=
      Scalar.clamp_mem hless.le
    exact ⟨Or.inl hmem, by linarith [hmem.1, Real.pi_pos]⟩
  · exact ⟨Or.inr (Scalar.clamp_mem (neg_le_neg hless.le)),
      Scalar.lt_clamp (Scalar.wrap_mem x).1 (neg_lt_neg hless)⟩

/-- What is wrapped into the sector is kept as it is. -/
theorem keptObtuse_of_wrap (hv : v ∈ obtuseSector) (hx : Scalar.wrap x = v) : keptObtuse x 0 = v := by
  have hquarter := Scalar.quarterTurn_pos
  rw [keptObtuse_zero, hx]
  rcases hv with hv | hv
  · rw [if_pos (hquarter.le.trans hv.1), Scalar.clamp_of_mem hv]
  · rw [if_neg (not_le.mpr (hv.2.trans_lt (neg_lt_zero.mpr hquarter))), Scalar.clamp_of_mem hv]

theorem keepsIn_obtuse : KeepsIn obtuseSector fun x => keptObtuse x 0 := by
  have hquarter := Scalar.quarterTurn_pos
  have hpi : Real.pi ∈ obtuseSector := Or.inl ⟨Scalar.quarterTurn_lt_pi.le, le_refl _⟩
  have hnarrow : obtuseSector ⊆ Set.Icc (-Real.pi) Real.pi := by
    rintro v (hv | hv)
    · exact ⟨by linarith [hv.1, Real.pi_pos], hv.2⟩
    · exact ⟨hv.1, by linarith [hv.2, Real.pi_pos]⟩
  refine ⟨hnarrow, fun x => (keptObtuse_mem x).1, fun x y hy => ?_, fun x hx _ => ?_, fun x htorn => absurd hpi htorn.2.1⟩
  · obtain ⟨hmem, hlower⟩ := keptObtuse_mem x
    rcases Scalar.wrap_of_coe (hnarrow hmem) hy with hwrap | ⟨heq, -⟩
    · exact keptObtuse_of_wrap hmem hwrap
    · exact absurd heq hlower.ne'
  · obtain ⟨y, hy, hxy⟩ := hx
    rcases Scalar.wrap_of_coe (hnarrow hy) hxy with hwrap | ⟨rfl, hwrap⟩
    · rw [keptObtuse_of_wrap hy hwrap, hxy]
    · rw [keptObtuse_of_wrap hpi hwrap, hxy, Scalar.coe_neg_pi]

end Obtuse

/-! ### Targets relative to another angle -/

/-- The value of the formula deviates from the angle that the reference finds by `f` of how much its owner's angle does. -/
structure Formula.Relative (formula : Formula ℝ) (r : Reference) (f : ℝ → ℝ) : Prop where
  references : formula.references = [r]
  value : ∀ (a : Assembly ℝ) (c : ConstraintId) (w : ℝ), a.angleThrough c r = .ok w →
    a.valueOf c formula = .ok (f (a.angle c - w) + w)

theorem relative_around (r : Reference) (least most : ℝ) :
    (Formula.around r least most).Relative r fun x => Scalar.clamp (Scalar.wrap x) least most := by
  refine ⟨rfl, fun a c w hw => ?_⟩
  unfold Assembly.valueOf
  dsimp only
  rw [hw]
  rfl

theorem relative_obtuse (r : Reference) : (Formula.obtuse r).Relative r fun x => Assembly.keptObtuse x 0 := by
  refine ⟨rfl, fun a c w hw => ?_⟩
  unfold Assembly.valueOf
  dsimp only
  rw [hw, ← keptObtuse_eq]
  rfl

/-- The computed target keeps its owner's angle in a sector around that of the constraint `ref`. -/
def Combinator.Keeps (k : Combinator ℝ) (ref : String) (sector : Set ℝ) : Prop :=
  ∃ key f, k.formula.Relative ⟨key, ref, .angle⟩ f ∧ KeepsIn sector f

/-- The factories of such targets, with the sectors. -/
inductive Recipe.Keeps : Recipe ℝ → String → Set ℝ → Prop where
  | ahead (ref : String) : Keeps (.anglePosFrom ref) ref (Set.Icc 0 Real.pi)
  | behind (ref : String) : Keeps (.angleNegFrom ref) ref (Set.Icc (-Real.pi) 0)
  | acute (ref : String) : Keeps (.angleAcuteFrom ref) ref (Set.Icc (-(Real.pi / 2)) (Real.pi / 2))
  | obtuse (ref : String) :
      Keeps (.angleObtuseFrom ref) ref (Set.Icc (Real.pi / 2) Real.pi ∪ Set.Icc (-Real.pi) (-(Real.pi / 2)))
  | range (ref : String) (least most : ℝ) (hleast : -Real.pi ≤ least) (h : least ≤ most) (hmost : most ≤ Real.pi) :
      Keeps (.angleRangeFrom ref least most) ref (Set.Icc least most)
  /-- The deprecated name of the same. -/
  | inclRange (ref : String) (least most : ℝ) (hleast : -Real.pi ≤ least) (h : least ≤ most) (hmost : most ≤ Real.pi) :
      Keeps (.angleInclRange ref least most) ref (Set.Icc least most)

namespace Act

section Factories

variable {ref : String} {sector : Set ℝ} {least most : ℝ} {a : Assembly ℝ}

theorem runs_angleAround (hleast : -Real.pi ≤ least) (h : least ≤ most) (hmost : most ≤ Real.pi) (name : Label ℝ) :
    Runs (angleAround ref least most name) a fun r _ => ∃ k, r = .ok k ∧ k.Keeps ref (Set.Icc least most) :=
  runs_traced (runs_after_newReference (runs_pure
    ⟨_, rfl, a.nextKey, _, relative_around _ least most, keepsIn_clamp hleast h hmost⟩))

/-- What such a factory makes keeps to the sector. -/
theorem runs_make_keeps {recipe : Recipe ℝ} (h : recipe.Keeps ref sector) (a : Assembly ℝ) :
    Runs recipe.make a fun r _ => ∃ k, r = .ok k ∧ k.Keeps ref sector := by
  have hpi := Real.pi_pos
  cases h with
  | ahead => exact runs_traced (runs_angleAround (by linarith) hpi.le (le_refl _) _)
  | behind => exact runs_traced (runs_angleAround (le_refl _) (by linarith) hpi.le _)
  | acute =>
    rw [← Scalar.quarterTurn_real]
    have hquarter := Scalar.quarterTurn_real
    exact runs_traced (runs_angleAround (by linarith) (by linarith) (by linarith) _)
  | obtuse =>
    rw [← Scalar.quarterTurn_real]
    exact runs_traced (runs_after_newReference (runs_pure
      ⟨_, rfl, a.nextKey, _, relative_obtuse _, keepsIn_obtuse⟩))
  | range _ least most hleast h hmost => exact runs_traced (runs_angleAround hleast h hmost _)
  | inclRange _ least most hleast h hmost =>
    refine runs_bind (runs_notice ?_)
    rw [then_ok]
    exact runs_traced (runs_angleAround hleast h hmost _)

end Factories

end Act

/-! ### Targets in use -/

/-- In the run of `ops` from `start` the factory has made `k`, which refers to `ref`, and at its end one system has both the
constraint `c` and, under that name, `d`. -/
structure Recipe.Serves (recipe : Recipe ℝ) (k : Combinator ℝ) (ref : String) (ops : List (Operation ℝ))
    (start : Session ℝ) (c d : ConstraintId) : Prop where
  genuine : Genuine [] ops start
  made : ∃ before after, ops = before ++ .make recipe :: after ∧ recipe.make.answer (run before start) = .ok k
  together : ∃ s, c ∈ ((run ops start).assembly.system s).constraints ∧
    d ∈ ((run ops start).assembly.system s).constraints
  named : ((run ops start).assembly.constraint d).id = some ref

namespace Recipe.Serves

variable {recipe : Recipe ℝ} {k : Combinator ℝ} {ref : String} {ops later : List (Operation ℝ)} {start : Session ℝ}
  {c d : ConstraintId} {sector : Set ℝ}

theorem mem (h : recipe.Serves k ref ops start c d) : k ∈ gathered Operation.makes ops start := by
  obtain ⟨before, after, rfl, hanswer⟩ := h.made
  rw [gathered_append, List.mem_append]
  refine Or.inr (List.mem_append_left _ ?_)
  simp only [Operation.makes, hanswer, List.mem_singleton]

theorem keeps (h : recipe.Serves k ref ops start c d) (hkeeps : recipe.Keeps ref sector) : k.Keeps ref sector := by
  obtain ⟨before, after, -, hanswer⟩ := h.made
  obtain ⟨k', hk', hsector⟩ := (Act.runs_make_keeps hkeeps (run before start).assembly).at_session
  rw [hanswer] at hk'
  cases hk'
  exact hsector

/-- Whatever happens later, the target serves the same constraints. -/
theorem append (h : recipe.Serves k ref ops start c d) (hconsistent : start.assembly.Consistent)
    (hgenuine : Genuine [] (ops ++ later) start) : recipe.Serves k ref (ops ++ later) start c d := by
  obtain ⟨before, after, hops, hanswer⟩ := h.made
  obtain ⟨s, hc, hd⟩ := h.together
  have hnow := consistent_run hconsistent ops
  have hgrows := grows_run (run ops start) later
  have hthen := consistent_run hconsistent (ops ++ later)
  refine ⟨hgenuine, ⟨before, after ++ later, ?_, hanswer⟩, ⟨s, ?_, ?_⟩, ?_⟩
  · rw [hops, List.append_assoc, List.cons_append]
  · rw [run_append]
    exact (hgrows.constraints s).subset hc
  · rw [run_append]
    exact (hgrows.constraints s).subset hd
  · rw [run_append] at hthen ⊢
    have hfound := hgrows.byId? s ref d ((hnow.byId?_iff ..).mpr ⟨hd, h.named⟩)
    exact ((hthen.byId?_iff ..).mp hfound).2

section Values

variable {ambient : Config ℝ} {journal : Journal ℝ}

/-- It has the value of its formula. -/
theorem evaluate_formula (h : recipe.Serves k ref ops ⟨.empty ambient, journal⟩ c d) :
    (Act.evaluate c (.computed k)).answer (run ops ⟨.empty ambient, journal⟩) =
      (run ops ⟨.empty ambient, journal⟩).assembly.valueOf c k.formula :=
  (coherent_run_empty h.genuine).evaluate fun _ hr => List.mem_flatMap.mpr ⟨k, h.mem, hr⟩

/-- A reference by the name finds the angle of `d`. -/
theorem angleThrough (h : recipe.Serves k ref ops ⟨.empty ambient, journal⟩ c d) (key : Nat) :
    (run ops ⟨.empty ambient, journal⟩).assembly.angleThrough c ⟨key, ref, .angle⟩ =
      .ok ((run ops ⟨.empty ambient, journal⟩).assembly.angle d) := by
  have hconsistent := (coherent_run_empty h.genuine).consistent
  obtain ⟨s, hc, hd⟩ := h.together
  exact Assembly.angleThrough_ok (Assembly.lookUp_ok_iff.mpr ⟨s, (hconsistent.owner_iff s c).mp hc,
    (hconsistent.byId?_iff ..).mpr ⟨hd, h.named⟩, rfl⟩)

/-- It has the value of its formula at the angles of the two constraints. -/
theorem evaluate {key : Nat} {f : ℝ → ℝ} (h : recipe.Serves k ref ops ⟨.empty ambient, journal⟩ c d)
    (hrelative : k.formula.Relative ⟨key, ref, .angle⟩ f) :
    (Act.evaluate c (.computed k)).answer (run ops ⟨.empty ambient, journal⟩) =
      .ok (f ((run ops ⟨.empty ambient, journal⟩).assembly.angle c -
          (run ops ⟨.empty ambient, journal⟩).assembly.angle d) +
        (run ops ⟨.empty ambient, journal⟩).assembly.angle d) := by
  rw [h.evaluate_formula]
  exact hrelative.value _ _ _ (h.angleThrough key)

end Values

end Recipe.Serves

namespace Act

/-- A bar that is to be half a turn behind the ground at most. -/
noncomputable def behindGround : Combinator ℝ := ⟨.negFrom "ground", .around ⟨0, "ground", .angle⟩ (-Scalar.pi) 0⟩

/-- The ground lies along the x-axis and the bar opposite to it. -/
noncomputable def laid : List (Operation ℝ) :=
  [.newSystem none, .node 0 0 0 {}, .node 0 1 0 {}, .node 0 (-1) 0 {},
    .pair 0 0 1 { id := some (some "ground") }, .pair 0 0 2 { angle := some (.target (.computed behindGround)) }]

/-- The bar and the ground are laid, and something else is done then. -/
noncomputable def opposing (later : List (Operation ℝ)) : List (Operation ℝ) :=
  .make (.angleNegFrom "ground") :: (laid ++ later)

/-- The session that they are made in. -/
noncomputable def unlaid : Session ℝ := ⟨.empty ⟨.int 256, 1, 1⟩, .empty Level.warning⟩

theorem genuine_opposing {later : List (Operation ℝ)} (hlater : ∀ op ∈ later, op.references = []) :
    Genuine [] (opposing later) unlaid := by
  have hmade : (Operation.make (Recipe.angleNegFrom "ground")).makes unlaid = [behindGround] := rfl
  have hlaid : ∀ op ∈ laid, op.references ⊆ referencesOf [behindGround] := by
    simp [laid, Operation.references, Spec.references, Target.references, Formula.references, behindGround, referencesOf]
  refine ⟨List.nil_subset _, ?_⟩
  rw [hmade]
  refine genuine_of_references fun op hop => ?_
  rcases List.mem_append.mp hop with hop | hop
  · exact hlaid op hop
  · rw [hlater op hop]
    exact List.nil_subset _

theorem serves_opposing {later : List (Operation ℝ)} (hlater : ∀ op ∈ later, op.references = []) :
    (Recipe.angleNegFrom "ground").Serves behindGround "ground" (opposing later) unlaid 1 0 := by
  have hlaid : (Recipe.angleNegFrom "ground").Serves behindGround "ground" (opposing []) unlaid 1 0 :=
    ⟨genuine_opposing (by simp), ⟨[], _, rfl, rfl⟩, ⟨0, by decide, by decide⟩, rfl⟩
  exact hlaid.append (Assembly.consistent_empty _) (genuine_opposing hlater)

/-- The end of the bar is moved to the end of the ground. -/
noncomputable def aligning : Operation ℝ := .modifyNode 2 fun n => { n with x := 1 }

/-- The end of the bar is moved straight below. -/
noncomputable def lowering : Operation ℝ := .modifyNode 2 fun n => { n with x := 0, y := -1 }

theorem arg_level : Complex.arg ⟨1 - 0, 0 - 0⟩ = 0 := by
  rw [sub_zero, sub_zero]
  exact Complex.arg_one

theorem arg_left : Complex.arg ⟨-1 - 0, 0 - 0⟩ = Real.pi := by
  rw [sub_zero, sub_zero, ← Complex.arg_neg_one]
  congr 1
  apply Complex.ext
  · rfl
  · exact neg_zero.symm

theorem arg_below : Complex.arg ⟨0 - 0, -1 - 0⟩ = -(Real.pi / 2) := by
  rw [sub_zero, sub_zero, ← Complex.arg_neg_I]
  congr 1
  apply Complex.ext
  · exact neg_zero.symm
  · rfl

theorem angle_opposing : (run (opposing []) unlaid).assembly.angle 1 = Real.pi := arg_left

theorem angle_lowering : (run (opposing [lowering]) unlaid).assembly.angle 1 = -(Real.pi / 2) := arg_below

/-- The bar lies in the sector and is wanted along the ground all the same. -/
theorem wanted_opposing : (evaluate 1 (.computed behindGround)).answer (run (opposing []) unlaid) = .ok 0 := by
  have hlaid : (Recipe.angleNegFrom "ground").Serves behindGround "ground" (opposing []) unlaid 1 0 :=
    serves_opposing (by simp)
  have hground : (run (opposing []) unlaid).assembly.angle 0 = 0 := arg_level
  rw [unlaid, hlaid.evaluate (relative_around ..), ← unlaid, hground, angle_opposing, sub_zero, add_zero]
  rw [Scalar.wrap_of_coe_pi rfl, Scalar.clamp_of_le Real.pi_pos.le]

/-- In exact arithmetic, take a target that one of the factories made which keep angles in a sector around that of another
constraint, for any owner whose system has that constraint, after any operations.  It has a value, which deviates from the
other angle by one of the sector.  If ever afterwards the owner has that angle, whole turns apart, and the other angle is
what it was, then the target has the same value. -/
theorem evaluate_stays (ambient : Config ℝ) (journal : Journal ℝ) (start : Session ℝ)
    (hstart : start = ⟨.empty ambient, journal⟩) (recipe : Recipe ℝ) (ref : String) (sector : Set ℝ)
    (hkeeps : recipe.Keeps ref sector) (k : Combinator ℝ) (ops : List (Operation ℝ)) (c d : ConstraintId)
    (h : recipe.Serves k ref ops start c d) :
    ∃ x, (evaluate c (.computed k)).answer (run ops start) = .ok x ∧
      x - (run ops start).assembly.angle d ∈ sector ∧
      ∀ later, Genuine [] (ops ++ later) start →
        (run (ops ++ later) start).assembly.angle d = (run ops start).assembly.angle d →
        ((run (ops ++ later) start).assembly.angle c : Real.Angle) = x →
        (evaluate c (.computed k)).answer (run (ops ++ later) start) = .ok x := by
  subst hstart
  obtain ⟨key, f, hrelative, hsector⟩ := h.keeps hkeeps
  refine ⟨_, h.evaluate hrelative, ?_, fun later hgenuine hd hc => ?_⟩
  · rw [add_sub_cancel_right]
    exact hsector.mem _
  · rw [(h.append (Assembly.consistent_empty ambient) hgenuine).evaluate hrelative, hd]
    congr 2
    refine hsector.again _ _ ?_
    rw [Real.Angle.coe_sub, hc, Real.Angle.coe_add, add_sub_cancel_right]

/-- The bar is wanted along the ground, and so it is when it lies there. -/
theorem evaluate_stays_opposing : (evaluate 1 (.computed behindGround)).answer (run (opposing []) unlaid) = .ok 0 ∧
    (evaluate 1 (.computed behindGround)).answer (run (opposing [aligning]) unlaid) = .ok 0 := by
  obtain ⟨x, hx, -, hstays⟩ := evaluate_stays _ _ unlaid rfl _ _ _ (.behind "ground") behindGround (opposing []) 1 0
    (serves_opposing (by simp))
  rw [wanted_opposing] at hx
  cases hx
  refine ⟨wanted_opposing, hstays [aligning] (genuine_opposing (by simp [aligning, Operation.references])) rfl ?_⟩
  change ((Complex.arg ⟨1 - 0, 0 - 0⟩ : ℝ) : Real.Angle) = (0 : ℝ)
  rw [arg_level]

/-- In exact arithmetic, an owner of such a target whose angle deviates from the other by one of the sector, whole turns
apart, is wanted where it is, unless it is opposite to the other constraint and the sector has half a turn as its lower
end `-π` only, with other angles.  Then it is wanted at the upper end. -/
theorem evaluate_admits (ambient : Config ℝ) (journal : Journal ℝ) (start : Session ℝ)
    (hstart : start = ⟨.empty ambient, journal⟩) (recipe : Recipe ℝ) (ref : String) (sector : Set ℝ)
    (hkeeps : recipe.Keeps ref sector) (k : Combinator ℝ) (ops : List (Operation ℝ)) (c d : ConstraintId)
    (h : recipe.Serves k ref ops start c d) (deviation : ℝ)
    (hdeviation : deviation = (run ops start).assembly.angle c - (run ops start).assembly.angle d)
    (hadmits : Admits sector deviation) :
    ∃ x, (evaluate c (.computed k)).answer (run ops start) = .ok x ∧
      ((x : Real.Angle) = (run ops start).assembly.angle c ↔ ¬Torn sector deviation) ∧
      (Torn sector deviation → IsGreatest sector (x - (run ops start).assembly.angle d)) := by
  subst hstart
  obtain ⟨key, f, hrelative, hsector⟩ := h.keeps hkeeps
  refine ⟨_, h.evaluate hrelative, ?_, fun htorn => ?_⟩
  · rw [← hdeviation, Real.Angle.coe_add, ← eq_sub_iff_add_eq, ← Real.Angle.coe_sub, ← hdeviation]
    constructor
    · exact fun hsame htorn => hsector.not_coe_of_torn htorn hsame
    · exact hsector.admits _ hadmits
  · rw [← hdeviation, add_sub_cancel_right]
    exact hsector.torn _ htorn

/-- The lowered bar is left alone. -/
theorem evaluate_admits_lowered : ∃ x,
    (evaluate 1 (.computed behindGround)).answer (run (opposing [lowering]) unlaid) = .ok x ∧
      (x : Real.Angle) = (-(Real.pi / 2) : ℝ) := by
  have hpi := Real.pi_pos
  have hground : (run (opposing [lowering]) unlaid).assembly.angle 0 = 0 := arg_level
  obtain ⟨x, hx, hiff, -⟩ := evaluate_admits _ _ unlaid rfl _ _ _ (.behind "ground") behindGround (opposing [lowering]) 1 0
    (serves_opposing (by simp [lowering, Operation.references])) (-(Real.pi / 2)) (by rw [angle_lowering, hground, sub_zero])
    ⟨_, ⟨by linarith, by linarith⟩, rfl⟩
  rw [angle_lowering] at hiff
  refine ⟨x, hx, hiff.mpr fun htorn => ?_⟩
  have hwrap := Scalar.wrap_of_coe_pi htorn.1
  rw [Scalar.wrap_real, Real.Angle.toReal_coe_eq_self_iff.mpr ⟨by linarith, by linarith⟩] at hwrap
  linarith

/-- The bar is half a turn behind the ground, as it may be, and is wanted elsewhere. -/
theorem evaluate_throws : Admits (Set.Icc (-Real.pi) 0)
      ((run (opposing []) unlaid).assembly.angle 1 - (run (opposing []) unlaid).assembly.angle 0) ∧
    (evaluate 1 (.computed behindGround)).answer (run (opposing []) unlaid) = .ok 0 ∧
    ((0 : ℝ) : Real.Angle) ≠ (run (opposing []) unlaid).assembly.angle 1 := by
  have hground : (run (opposing []) unlaid).assembly.angle 0 = 0 := arg_level
  rw [angle_opposing, hground, sub_zero]
  refine ⟨⟨-Real.pi, ⟨le_refl _, neg_nonpos.mpr Real.pi_pos.le⟩, ?_⟩, wanted_opposing, ?_⟩
  · rw [Scalar.coe_neg_pi]
  · rw [Real.Angle.coe_zero]
    exact Real.Angle.pi_ne_zero.symm

end Act

end Linkage
