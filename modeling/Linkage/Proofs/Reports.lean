import Linkage.Proofs.Deviation
import Linkage.Proofs.Interpolation
import Linkage.Proofs.Ranking

/-!
# Linkage.Proofs.Reports — the two reports of one constraint

The residuals of a constraint and its description in numbers are taken of the same targets, read in the same order
(`wants`), with the differences in opposite directions.  Wrapping goes with the sign of an angle but at half a turn, which
is wrapped to the positive end of the interval from both sides (`Scalar.wrap_neg_of_eq_pi`), so the reports are mirror
images of each other but there (`Mirrors`).  A description has inverse masses besides: of a constraint with a node that
weighs nothing there are residuals and no description.
-/

namespace Linkage

/-! ### Wrapping and signs -/

namespace Scalar

theorem wrap_eq_pi_iff_coe {x : ℝ} : Scalar.wrap x = Real.pi ↔ (x : Real.Angle) = Real.pi := by
  rw [wrap_real, Real.Angle.toReal_eq_pi_iff]

/-- The wrapped angle is the only number in `(-π, π]` that differs by whole turns. -/
theorem wrap_eq_iff {x v : ℝ} :
    Scalar.wrap x = v ↔ v ∈ Set.Ioc (-Real.pi) Real.pi ∧ ∃ k : ℤ, v = x + k * (2 * Real.pi) := by
  constructor
  · rintro rfl
    obtain ⟨k, hk⟩ := Real.Angle.angle_eq_iff_two_pi_dvd_sub.mp (coe_wrap x)
    refine ⟨wrap_mem x, k, ?_⟩
    rw [mul_comm (k : ℝ), ← hk, add_sub_cancel]
  · rintro ⟨hmem, k, hk⟩
    have hcoe : (v : Real.Angle) = x := by
      refine Real.Angle.angle_eq_iff_two_pi_dvd_sub.mpr ⟨k, ?_⟩
      rw [hk, add_sub_cancel_left, mul_comm]
    rw [wrap_real, ← hcoe]
    exact Real.Angle.toReal_coe_eq_self_iff.mpr hmem

theorem wrap_wrap (x : ℝ) : Scalar.wrap (Scalar.wrap x) = Scalar.wrap x := by
  rw [wrap_real (Scalar.wrap x), coe_wrap, ← wrap_real]

theorem wrap_add_turns (x : ℝ) (k : ℤ) : Scalar.wrap (x + k * (2 * Real.pi)) = Scalar.wrap x := by
  have hcoe : ((x + k * (2 * Real.pi) : ℝ) : Real.Angle) = x := by
    refine Real.Angle.angle_eq_iff_two_pi_dvd_sub.mpr ⟨k, ?_⟩
    rw [add_sub_cancel_left, mul_comm]
  rw [wrap_real, hcoe, ← wrap_real]

/-- Half a turn is wrapped to the positive end of the interval in both directions. -/
theorem wrap_neg_of_eq_pi {x : ℝ} (h : Scalar.wrap x = Real.pi) : Scalar.wrap (-x) = Real.pi := by
  rw [wrap_eq_pi_iff_coe] at h ⊢
  rw [Real.Angle.coe_neg, h, Real.Angle.neg_coe_pi]

theorem degrees_neg (x : ℝ) : Scalar.degrees (-x) = -Scalar.degrees x := neg_mul x _

theorem degrees_pi : Scalar.degrees Real.pi = 180 := mul_div_cancel₀ 180 Real.pi_ne_zero

end Scalar

/-! ### Nodes that weigh something -/

/-- The node has an inverse mass: it is a base node, or its effective mass is not zero. -/
def Node.Weighs (n : Node ℝ) : Prop := n.base = true ∨ n.effectiveMass ≠ 0

theorem Node.Weighs.exists_inverseMass {n : Node ℝ} (h : n.Weighs) : ∃ m, n.inverseMass = .ok m := by
  unfold inverseMass
  split
  case isTrue => exact ⟨0, rfl⟩
  case isFalse hfree => exact ⟨_, Scalar.divide_eq_ok.mpr ⟨h.resolve_left hfree, rfl⟩⟩

theorem Node.inverseMass_of_not_weighs {n : Node ℝ} (h : ¬n.Weighs) : n.inverseMass = .error .zeroDivision := by
  obtain ⟨hfree, hnone⟩ := not_or.mp h
  unfold inverseMass Scalar.divide
  rw [if_neg hfree, if_pos ((Scalar.isZero_real _).mpr (not_not.mp hnone))]

theorem Ends.shares_of_not_weighs {e : Ends ℝ} (h : ¬(e.first.Weighs ∧ e.second.Weighs)) :
    e.shares = .error .zeroDivision := by
  unfold shares
  by_cases hfirst : e.first.Weighs
  · obtain ⟨m, hm⟩ := hfirst.exists_inverseMass
    rw [hm, Node.inverseMass_of_not_weighs fun hsecond => h ⟨hfirst, hsecond⟩]
    rfl
  · rw [Node.inverseMass_of_not_weighs hfirst]
    rfl

/-! ### Two reports of one constraint -/

/-- The two angles are half a turn apart. -/
def Opposed (v w : ℝ) : Prop := ((v - w : ℝ) : Real.Angle) = Real.pi

/-- The deviation of the length in a description; a triple has none. -/
def Description.lengthGap? {α : Type} : Description α → Option α
  | .pair _ _ _ _ _ _ _ lengthGap _ _ => lengthGap
  | .triple .. => none

/-- The deviation of the angle in a description, in degrees. -/
def Description.angleGap? {α : Type} : Description α → Option α
  | .pair _ _ _ _ _ _ _ _ angleGap _ => angleGap
  | .triple _ _ _ _ _ target => target.map Prod.snd

/-- A description mirrors the residuals of a constraint with this angle, for which it perhaps wants another: it has a
deviation of a quantity if they have an entry for it, which is the opposite number, in degrees for an angle. -/
structure Mirrors (angle : ℝ) (wanted? : Option ℝ) (d : Description ℝ) (rs : List (Residual ℝ)) : Prop where
  length_iff : d.lengthGap?.isSome ↔ ∃ r ∈ rs, r.quantity = .length
  angle_iff : d.angleGap?.isSome ↔ ∃ r ∈ rs, r.quantity = .angle
  length : ∀ gap ∈ d.lengthGap?, ∀ r ∈ rs, r.quantity = .length → gap = -r.error
  /-- Where the angles are opposite, both are half a turn with the positive sign. -/
  angle : ∀ gap ∈ d.angleGap?, ∀ r ∈ rs, r.quantity = .angle → ∃ wanted ∈ wanted?,
    (¬Opposed angle wanted → gap = -Scalar.degrees r.error) ∧
      (Opposed angle wanted → gap = 180 ∧ r.error = Real.pi)

namespace Act

open Assembly (Coherent Corrected SameScene)

section Wants

variable {α : Type} [Scalar α]

/-- The wanted length of a pair, if it has one. -/
def wantedLength (c : ConstraintId) : Act α (Option α) := do
  match ((← assembly).constraint c).shape.kind with
  | .pair => targetLength c
  | .triple => return none

/-- The values of the targets of a constraint, as both reports read them. -/
def wants (c : ConstraintId) : Act α (Option α × Option α) := do
  let length? ← wantedLength c
  return (length?, ← targetAngle c)

/-- The residuals of a constraint that has this length and angle and wants other ones. -/
def residualsFor (id : Option String) (length angle : α) (wanted : Option α × Option α) : List (Residual α) :=
  (wanted.1.toList.map fun target => ⟨id, .length, length - target⟩) ++
    wanted.2.toList.map fun target => ⟨id, .angle, Scalar.wrap (angle - target)⟩

theorem mem_residualsFor {id : Option String} {length angle : α} {wanted : Option α × Option α} {r : Residual α} :
    r ∈ residualsFor id length angle wanted ↔ (∃ target, wanted.1 = some target ∧ r = ⟨id, .length, length - target⟩) ∨
      ∃ target, wanted.2 = some target ∧ r = ⟨id, .angle, Scalar.wrap (angle - target)⟩ := by
  simp only [residualsFor, List.mem_append, List.mem_map, Option.mem_toList, eq_comm]

/-- Read on `a`, the wanted length has the first of two values, and the wanted angle, read on `b` which that leaves, has
the second. -/
structure Wants (c : ConstraintId) (wanted : Option α × Option α) (a b : Assembly α) : Prop where
  length : Runs (wantedLength c) a fun r b' => r = .ok wanted.1 ∧ b' = b
  angle : Runs (targetAngle c) b fun r b' => r = .ok wanted.2 ∧ Corrected [] b b'
  corrected : Corrected [] a b

variable {c : ConstraintId} {wanted : Option α × Option α} {a b : Assembly α} {st : Session α}

theorem composed_wantedLength (c : ConstraintId) : Composed (wantedLength (α := α) c) := by
  refine composed_read fun a => ?_
  cases (a.constraint c).shape.kind with
  | pair => exact composed_targetLength c
  | triple => exact .value none

theorem keeps_wantedLength (c : ConstraintId) : Keeps (Corrected (α := α) []) (wantedLength c) := by
  refine keeps_read fun a => ?_
  cases (a.constraint c).shape.kind with
  | pair => exact keeps_targetLength c a
  | triple => exact keeps_pure none a

theorem wants_of_answer (h : (wants c).answer st = .ok wanted) :
    Wants c wanted st.assembly ((wantedLength c).after st).assembly := by
  obtain ⟨length?, hlength, h⟩ := answer_bind_eq_ok h
  obtain ⟨angle?, hangle, h⟩ := answer_bind_eq_ok h
  cases h
  exact {
    length := (composed_wantedLength c).runs_of_answer hlength
    angle := (((composed_targetAngle c).runs_of_answer hangle).and (keeps_targetAngle c _)).mono
      fun _ _ ⟨hr, hread⟩ => ⟨hr.1, hread⟩
    corrected := (keeps_wantedLength c st.assembly).at_session }

/-- Reading leaves the nodes and the constraints as they are. -/
theorem length_of_corrected (h : Corrected [] a b) (c : ConstraintId) : b.length c = a.length c := by
  have hnode : b.node = a.node := funext fun n => h.outside n List.not_mem_nil
  unfold Assembly.length
  rw [h.constraint, hnode]

theorem angle_of_corrected (h : Corrected [] a b) (c : ConstraintId) : b.angle c = a.angle c := by
  have hnode : b.node = a.node := funext fun n => h.outside n List.not_mem_nil
  unfold Assembly.angle
  rw [h.constraint, hnode]

namespace Wants

/-! #### Measuring -/

theorem of_pair (h : Wants c wanted a b) {first second : NodeId} {direction : Direction}
    (hshape : (a.constraint c).shape = .pair first second direction) :
    Runs (targetLength c) a fun r b' => r = .ok wanted.1 ∧ b' = b := by
  have hread := of_runs_read h.length
  rw [hshape] at hread
  exact hread

theorem of_triple (h : Wants c wanted a b) {apex ray arm : NodeId}
    (hshape : (a.constraint c).shape = .triple apex ray arm) : wanted.1 = none ∧ b = a := by
  have hread := of_runs_read h.length
  rw [hshape] at hread
  obtain ⟨hnone, hsame⟩ := of_runs_pure hread
  exact ⟨(Except.ok.inj hnone).symm, hsame.symm⟩

/-- The length that a residual is taken of does not matter where none is wanted. -/
theorem runs_lengthResidual (h : Wants c wanted a b) {length : α} (hlength : wanted.1.isSome → a.length c = .ok length) :
    Runs (lengthResidual c) a fun r b' => b' = b ∧
      r = .ok (wanted.1.toList.map fun target => ⟨(a.constraint c).id, .length, length - target⟩) := by
  refine runs_read ?_
  dsimp only
  cases hshape : (a.constraint c).shape with
  | pair first second direction =>
    -- reading the target leaves the ends where they are, so that the length is that of the start
    refine runs_bind ((h.of_pair hshape).mono fun r b' ⟨hr, hb'⟩ => ?_)
    rw [hr, hb', then_ok]
    cases hwanted : wanted.1 with
    | none => exact runs_pure ⟨rfl, rfl⟩
    | some target =>
      refine runs_bind_pure (runs_ownLength ⟨rfl, ?_⟩)
      rw [length_of_corrected h.corrected, hlength (by rw [hwanted]; rfl)]
      rfl
  | triple apex ray arm =>
    obtain ⟨hnone, hsame⟩ := h.of_triple hshape
    rw [hnone]
    exact runs_pure ⟨hsame.symm, rfl⟩

theorem runs_angleResidual (h : Wants c wanted a b) : Runs (angleResidual c) b fun r _ =>
    r = .ok (wanted.2.toList.map fun target => ⟨(a.constraint c).id, .angle, Scalar.wrap (a.angle c - target)⟩) := by
  refine runs_read (runs_bind (h.angle.mono fun r b' ⟨hr, hb'⟩ => ?_))
  rw [hr, then_ok, h.corrected.constraint]
  cases wanted.2 with
  | none => exact runs_pure rfl
  | some target =>
    refine runs_bind_pure (runs_ownAngle ?_)
    rw [angle_of_corrected hb', angle_of_corrected h.corrected]
    rfl

theorem runs_residualsOf (h : Wants c wanted a b) {length : α} (hlength : wanted.1.isSome → a.length c = .ok length) :
    Runs (residualsOf c) a fun r _ => r = .ok (residualsFor (a.constraint c).id length (a.angle c) wanted) := by
  refine runs_bind ((h.runs_lengthResidual hlength).mono fun r b' ⟨hb', hr⟩ => ?_)
  rw [hr, hb', then_ok]
  refine runs_bind_pure (h.runs_angleResidual.mono fun r b' hr => ?_)
  rw [hr]
  rfl

/-! #### Describing -/

theorem runs_describe_pair (h : Wants c wanted a b) {first second : NodeId} {direction : Direction}
    (hshape : (a.constraint c).shape = .pair first second direction) {e : Ends α}
    (he : e = ⟨a.node first, a.node second⟩) {inverse₁ inverse₂ : α} {share : α × α} (hshare : e.shares = .ok share)
    (hfirst : e.first.inverseMass = .ok inverse₁) (hsecond : e.second.inverseMass = .ok inverse₂) :
    Runs (describe c) a fun r _ => r = .ok (.pair (a.constraint c).id inverse₁ inverse₂ share.1 share.2 e.vector.length
      (Scalar.degrees e.vector.angle) (wanted.1.map (· - e.vector.length))
      (wanted.2.map fun target => Scalar.degrees (Scalar.wrap (target - e.vector.angle))) direction.toInt) := by
  subst he
  refine runs_read ?_
  dsimp only
  rw [hshape]
  refine runs_bind (runs_ofExcept ?_)
  rw [hshare, then_ok]
  refine runs_bind (runs_ofExcept ?_)
  rw [hfirst, then_ok]
  refine runs_bind (runs_ofExcept ?_)
  rw [hsecond, then_ok]
  refine runs_bind ((h.of_pair hshape).mono fun r b' ⟨hr, hb'⟩ => ?_)
  rw [hr, hb', then_ok]
  refine runs_bind_pure (h.angle.mono fun r b' ⟨hr, _⟩ => ?_)
  rw [hr]
  rfl

theorem runs_describe_triple (h : Wants c wanted a b) {apex ray arm : NodeId}
    (hshape : (a.constraint c).shape = .triple apex ray arm) {inverse₁ inverse₂ inverse₃ : α}
    (hapex : (a.node apex).inverseMass = .ok inverse₁) (hray : (a.node ray).inverseMass = .ok inverse₂)
    (harm : (a.node arm).inverseMass = .ok inverse₃) :
    Runs (describe c) a fun r _ => r = .ok (.triple (a.constraint c).id inverse₁ inverse₂ inverse₃
      (Scalar.degrees (a.angle c)) (wanted.2.map fun target =>
        (Scalar.degrees target, Scalar.degrees (Scalar.wrap (target - a.angle c))))) := by
  obtain ⟨-, rfl⟩ := h.of_triple hshape
  refine runs_read ?_
  dsimp only
  rw [hshape]
  refine runs_bind (runs_ofExcept ?_)
  rw [hapex, then_ok]
  refine runs_bind (runs_ofExcept ?_)
  rw [hray, then_ok]
  refine runs_bind (runs_ofExcept ?_)
  rw [harm, then_ok]
  refine runs_bind_pure (h.angle.mono fun r b' ⟨hr, _⟩ => ?_)
  rw [hr]
  rfl

end Wants

/-! #### Asking again -/

variable {made : List Reference} {cs : List ConstraintId}

theorem blind_describe_sameScene (hc : c ∈ cs) : Blind (SameScene made cs) (describe (α := α) c) := by
  refine blind_read fun a b hab => ?_
  dsimp only
  rw [hab.shape, hab.id, hab.node, hab.angle]
  have hangle : Blind (SameScene made cs) (targetAngle (α := α) c) := fun _ _ h => agree_targetAngle h hc
  have hlength : Blind (SameScene made cs) (targetLength (α := α) c) := fun _ _ h => agree_targetLength h hc
  have hmass (r : Except (Fault α) α) : Blind (SameScene made cs) (ofExcept r) := fun _ _ h => agree_ofExcept r h
  cases (a.constraint c).shape with
  | pair first second direction =>
    have hshares : Blind (SameScene made cs) (ofExcept (⟨a.node first, a.node second⟩ : Ends α).shares) :=
      fun _ _ h => agree_ofExcept _ h
    exact hshares.bind (fun _ => (hmass _).bind fun _ => (hmass _).bind fun _ => hlength.bind fun _ =>
      hangle.bind fun _ => blind_pure _) a b hab
  | triple apex ray arm =>
    exact (hmass _).bind (fun _ => (hmass _).bind fun _ => (hmass _).bind fun _ => hangle.bind fun _ => blind_pure _)
      a b hab

/-- Reading changes no scene. -/
theorem sameScene_of_corrected (hcoherent : Coherent made a) (htimeless : (a.constraint c).Timeless)
    (h : Corrected [] a b) : SameScene made [c] a b where
  toSamePlan := h.samePlan
  node := funext fun n => h.outside n List.not_mem_nil
  coherent := hcoherent
  coherent' := hcoherent.relaxed h.relaxed
  timeless d hd := by rwa [List.mem_singleton.mp hd]

/-- What sees no more than the scene answers after reading as it did before. -/
theorem answer_after_reading {β γ : Type} {p : Act α β} {q : Act α γ} (hcoherent : Coherent made st.assembly)
    (htimeless : (st.assembly.constraint c).Timeless) (hp : Blind (SameScene made [c]) p)
    (hq : Keeps (Corrected []) q) : p.answer (q.after st) = p.answer st :=
  have hscene := sameScene_of_corrected hcoherent htimeless (hq st.assembly).at_session
  (Runs.at_session (hp _ _ hscene).at_session).1.eq.symm

end Wants

variable {c : ConstraintId} {a : Assembly ℝ} {st : Session ℝ}

/-- The inverse mass of a node is computed, or a division by zero fails. -/
theorem runs_bind_inverseMass {β : Type} {n : Node ℝ} {f : ℝ → Act ℝ β} {Q : Except (Fault ℝ) β → Assembly ℝ → Prop}
    (hweighs : n.Weighs → ∀ m, Runs (f m) a Q) (hlight : ¬n.Weighs → Q (.error .zeroDivision) a) :
    Runs (ofExcept n.inverseMass >>= f) a Q := by
  refine runs_bind (runs_ofExcept ?_)
  by_cases h : n.Weighs
  · obtain ⟨m, hm⟩ := h.exists_inverseMass
    rw [hm]
    exact hweighs h m
  · rw [Node.inverseMass_of_not_weighs h]
    exact hlight h

/-- Describing a constraint divides by the effective mass of each of its nodes, before it reads a target. -/
theorem runs_describe_of_not_weighs (h : ¬∀ n ∈ (a.constraint c).shape.nodes, (a.node n).Weighs) :
    Runs (describe c) a fun r _ => r = .error .zeroDivision := by
  refine runs_read ?_
  dsimp only
  cases hshape : (a.constraint c).shape with
  | pair first second direction =>
    rw [hshape, Shape.nodes, List.forall_mem_cons, List.forall_mem_singleton] at h
    refine runs_bind (runs_ofExcept ?_)
    rw [Ends.shares_of_not_weighs h]
    rfl
  | triple apex ray arm =>
    rw [hshape, Shape.nodes, List.forall_mem_cons, List.forall_mem_cons, List.forall_mem_singleton] at h
    refine runs_bind_inverseMass (fun hapex _ => ?_) fun _ => rfl
    refine runs_bind_inverseMass (fun hray _ => ?_) fun _ => rfl
    exact runs_bind_inverseMass (fun harm _ => absurd ⟨hapex, hray, harm⟩ h) fun _ => rfl

/-- A description mirrors residuals if it takes the same differences the other way round. -/
theorem mirrors_of_gaps {id : Option String} {length angle : ℝ} {wanted : Option ℝ × Option ℝ} {d : Description ℝ}
    (hlength : d.lengthGap? = wanted.1.map (· - length))
    (hangle : d.angleGap? = wanted.2.map fun target => Scalar.degrees (Scalar.wrap (target - angle))) :
    Mirrors angle wanted.2 d (residualsFor id length angle wanted) where
  length_iff := by
    rw [hlength, Option.isSome_map, Option.isSome_iff_exists]
    constructor
    · rintro ⟨target, htarget⟩
      exact ⟨_, mem_residualsFor.mpr (Or.inl ⟨target, htarget, rfl⟩), rfl⟩
    · rintro ⟨r, hr, hquantity⟩
      obtain ⟨target, htarget, -⟩ | ⟨target, htarget, rfl⟩ := mem_residualsFor.mp hr
      · exact ⟨target, htarget⟩
      · cases hquantity
  angle_iff := by
    rw [hangle, Option.isSome_map, Option.isSome_iff_exists]
    constructor
    · rintro ⟨target, htarget⟩
      exact ⟨_, mem_residualsFor.mpr (Or.inr ⟨target, htarget, rfl⟩), rfl⟩
    · rintro ⟨r, hr, hquantity⟩
      obtain ⟨target, htarget, rfl⟩ | ⟨target, htarget, -⟩ := mem_residualsFor.mp hr
      · cases hquantity
      · exact ⟨target, htarget⟩
  length gap hgap r hr hquantity := by
    obtain ⟨target, htarget, rfl⟩ | ⟨target, htarget, rfl⟩ := mem_residualsFor.mp hr
    · rw [hlength, htarget] at hgap
      cases hgap
      exact (neg_sub length target).symm
    · cases hquantity
  angle gap hgap r hr hquantity := by
    obtain ⟨target, htarget, rfl⟩ | ⟨target, htarget, rfl⟩ := mem_residualsFor.mp hr
    · cases hquantity
    · rw [hangle, htarget] at hgap
      cases hgap
      dsimp only
      refine ⟨target, htarget, fun hapart => ?_, fun hopposed => ?_⟩
      · rw [← neg_sub angle target, Scalar.wrap_neg hapart, Scalar.degrees_neg]
      · -- half a turn is wrapped to the same end from both sides, so the sign does not change
        have hstraight : Scalar.wrap (angle - target) = Real.pi := Scalar.wrap_eq_pi_iff_coe.mpr hopposed
        refine ⟨?_, hstraight⟩
        rw [← neg_sub angle target, Scalar.wrap_neg_of_eq_pi hstraight, Scalar.degrees_pi]

/-- There is a length that the residuals can be taken of, that of the constraint if it is a pair; and if all nodes weigh
something, the constraint can be described and the description mirrors those residuals. -/
theorem Wants.exists_describe {wanted : Option ℝ × Option ℝ} {b : Assembly ℝ} (h : Wants c wanted a b) :
    ∃ length : ℝ, (wanted.1.isSome → a.length c = .ok length) ∧
      ((∀ n ∈ (a.constraint c).shape.nodes, (a.node n).Weighs) → ∃ d, Runs (describe c) a (fun r _ => r = .ok d) ∧
        Mirrors (a.angle c) wanted.2 d (residualsFor (a.constraint c).id length (a.angle c) wanted)) := by
  cases hshape : (a.constraint c).shape with
  | pair first second direction =>
    set e : Ends ℝ := ⟨a.node first, a.node second⟩ with he
    have hlength : a.length c = .ok e.vector.length := by
      unfold Assembly.length
      rw [hshape]
      rfl
    have hangle : a.angle c = e.vector.angle := by
      unfold Assembly.angle
      rw [hshape]
      rfl
    refine ⟨e.vector.length, fun _ => hlength, fun hweighs => ?_⟩
    rw [Shape.nodes, List.forall_mem_cons, List.forall_mem_singleton] at hweighs
    obtain ⟨inverse₁, hfirst⟩ : ∃ m, e.first.inverseMass = .ok m := hweighs.1.exists_inverseMass
    obtain ⟨inverse₂, hsecond⟩ : ∃ m, e.second.inverseMass = .ok m := hweighs.2.exists_inverseMass
    obtain ⟨share, hshare⟩ : ∃ share, e.shares = .ok share := by
      unfold Ends.shares
      rw [hfirst, hsecond]
      exact exists_shares inverse₁ inverse₂
    refine ⟨_, h.runs_describe_pair hshape he hshare hfirst hsecond, mirrors_of_gaps rfl ?_⟩
    rw [hangle]
    rfl
  | triple apex ray arm =>
    obtain ⟨hnone, -⟩ := h.of_triple hshape
    have hfree : wanted.1.isSome → a.length c = .ok 0 := by
      rw [hnone]
      rintro ⟨⟩
    refine ⟨0, hfree, fun hweighs => ?_⟩
    rw [Shape.nodes, List.forall_mem_cons, List.forall_mem_cons, List.forall_mem_singleton] at hweighs
    obtain ⟨inverse₁, hapex⟩ := hweighs.1.exists_inverseMass
    obtain ⟨inverse₂, hray⟩ := hweighs.2.1.exists_inverseMass
    obtain ⟨inverse₃, harm⟩ := hweighs.2.2.exists_inverseMass
    refine ⟨_, h.runs_describe_triple hshape hapex hray harm, mirrors_of_gaps ?_ ?_⟩
    · rw [hnone]
      rfl
    · exact Option.map_map ..

/-- In exact arithmetic, wrapping takes every angle to the one number in `(-π, π]` that is whole turns away, so it is
idempotent, has the period of a turn, and goes with the sign but at half a turn.  Take a constraint in any session, both
of whose targets, if it has them, can be read.  Then it has residuals.  If its nodes all weigh something, it can be
described, and the description mirrors the residuals; if one does not, describing it fails with a division by zero.  For
targets that have the same values at any moment, where the memory is coherent, each report is the same after the
other. -/
theorem reports_mirror :
    (∀ x v : ℝ, Scalar.wrap x = v ↔ v ∈ Set.Ioc (-Real.pi) Real.pi ∧ ∃ k : ℤ, v = x + k * (2 * Real.pi)) ∧
    (∀ x : ℝ, Scalar.wrap (Scalar.wrap x) = Scalar.wrap x) ∧
    (∀ (x : ℝ) (k : ℤ), Scalar.wrap (x + k * (2 * Real.pi)) = Scalar.wrap x) ∧
    (∀ x : ℝ, (Scalar.wrap x ≠ Real.pi → Scalar.wrap (-x) = -Scalar.wrap x) ∧
      (Scalar.wrap x = Real.pi → Scalar.wrap (-x) = Real.pi)) ∧
    ∀ (st : Session ℝ) (c : ConstraintId) (wanted : Option ℝ × Option ℝ), (wants c).answer st = .ok wanted →
      ∃ rs, (residualsOf c).answer st = .ok rs ∧
        ((∀ n ∈ (st.assembly.constraint c).shape.nodes, (st.assembly.node n).Weighs) →
          ∃ d, (describe c).answer st = .ok d ∧ Mirrors (st.assembly.angle c) wanted.2 d rs) ∧
        ((¬∀ n ∈ (st.assembly.constraint c).shape.nodes, (st.assembly.node n).Weighs) →
          (describe c).answer st = .error .zeroDivision) ∧
        ∀ made, Coherent made st.assembly → (st.assembly.constraint c).Timeless →
          (describe c).answer ((residualsOf c).after st) = (describe c).answer st ∧
          (residualsOf c).answer ((describe c).after st) = (residualsOf c).answer st := by
  refine ⟨fun _ _ => Scalar.wrap_eq_iff, Scalar.wrap_wrap, Scalar.wrap_add_turns, fun x =>
    ⟨fun hx => Scalar.wrap_neg (mt Scalar.wrap_eq_pi_iff_coe.mpr hx), Scalar.wrap_neg_of_eq_pi⟩, ?_⟩
  intro st c wanted hanswer
  have hwants := wants_of_answer hanswer
  obtain ⟨length, hlength, hdescribe⟩ := hwants.exists_describe
  refine ⟨_, (hwants.runs_residualsOf hlength).at_session, fun hweighs => ?_, fun hlight => ?_, ?_⟩
  · obtain ⟨d, hd, hmirrors⟩ := hdescribe hweighs
    exact ⟨d, hd.at_session, hmirrors⟩
  · exact (runs_describe_of_not_weighs hlight).at_session
  -- neither report changes the scene that the other is read from
  · intro made hcoherent htimeless
    have hone : c ∈ [c] := List.mem_singleton_self c
    exact ⟨answer_after_reading hcoherent htimeless (blind_describe_sameScene hone) (keeps_residualsOf c),
      answer_after_reading hcoherent htimeless (blind_residualsOf_sameScene hone) (keeps_describe c)⟩

theorem opposedBar_opposed : Opposed (opposedBar.assembly.angle 0) 0 := by
  have hown : opposedBar.assembly.angle 0 =
      Complex.arg ((opposedBar.assembly.node 0).vectorTo (opposedBar.assembly.node 1)).toComplex := rfl
  unfold Opposed
  rw [hown, opposedBar_vector, Complex.arg_neg_one, sub_zero]

theorem opposedBar_weighs :
    ∀ n ∈ (opposedBar.assembly.constraint 0).shape.nodes, (opposedBar.assembly.node n).Weighs := by
  intro n hn
  obtain rfl | rfl : n = 0 ∨ n = 1 := by
    change n ∈ [0, 1] at hn
    simpa using hn
  · exact Or.inl rfl
  · refine Or.inr ?_
    change (1 : ℝ) + 0 ≠ 0
    norm_num

/-- The bar that lies against its wanted angle is half a turn from it in both reports, with the positive sign, and it is
described in the same way after it was measured. -/
theorem reports_mirror_opposed : (wants 0).answer opposedBar = .ok (none, some 0) ∧ ∃ d r,
    (describe 0).answer opposedBar = .ok d ∧ (residualsOf 0).answer opposedBar = .ok [r] ∧
      d.lengthGap? = none ∧ d.angleGap? = some 180 ∧ r.error = Real.pi ∧
      (describe 0).answer ((residualsOf 0).after opposedBar) = .ok d := by
  have hwants : (wants 0).answer opposedBar = .ok (none, some 0) := rfl
  have htimeless : (opposedBar.assembly.constraint 0).Timeless := by
    intro t ht
    obtain rfl := List.mem_singleton.mp (show t ∈ [.fixed 0] from ht)
    exact trivial
  obtain ⟨made, hcoherent⟩ : ∃ made, Coherent made opposedBar.assembly := by
    refine ⟨_, coherent_run_empty (genuine_of_references ?_)⟩
    simp [Operation.references, Spec.references]
  obtain ⟨r, hr, hquantity⟩ : ∃ r, (residualsOf 0).answer opposedBar = .ok [r] ∧ r.quantity = .angle := ⟨_, rfl, rfl⟩
  obtain ⟨rs, hrs, hdescribe, -, hagain⟩ := reports_mirror.2.2.2.2 opposedBar 0 (none, some 0) hwants
  obtain rfl : [r] = rs := Except.ok.inj (hr.symm.trans hrs)
  obtain ⟨d, hd, hmirrors⟩ := hdescribe opposedBar_weighs
  have hnone : d.lengthGap? = none := by
    rw [← Option.not_isSome_iff_eq_none, hmirrors.length_iff]
    rintro ⟨r', hr', hlength⟩
    rw [List.mem_singleton.mp hr', hquantity] at hlength
    cases hlength
  obtain ⟨gap, hgap⟩ := Option.isSome_iff_exists.mp (hmirrors.angle_iff.mpr ⟨r, List.mem_singleton_self r, hquantity⟩)
  obtain ⟨wanted, hwanted, -, hstraight⟩ := hmirrors.angle gap hgap r (List.mem_singleton_self r) hquantity
  obtain rfl : 0 = wanted := Option.some.inj hwanted
  obtain ⟨rfl, herror⟩ := hstraight opposedBar_opposed
  exact ⟨hwants, d, r, hd, hr, hnone, hgap, herror, (hagain made hcoherent htimeless).1.trans hd⟩

/-- A bar with a wanted length, whose free end has been given the mass zero. -/
noncomputable def masslessBar : Session ℝ :=
  run [.newConfig ⟨.int 1, 1, 1⟩, .newSystem (some 0), .node 0 0 0 { base := some true, mass := some none },
    .node 0 1 0 { mass := some none }, .modifyNode 1 fun v => { v with mass := 0 },
    .pair 0 0 1 { length := some (.number (.int 5)) }] ⟨.empty ⟨.int 1, 1, 1⟩, .empty Level.warning⟩

/-- Its target can be read and it has a residual of its length, but it cannot be described. -/
theorem describe_divides : (∃ wanted, (wants 0).answer masslessBar = .ok wanted) ∧
    (∃ r, (residualsOf 0).answer masslessBar = .ok [r] ∧ r.quantity = .length) ∧
    (describe 0).answer masslessBar = .error .zeroDivision := by
  refine ⟨⟨_, rfl⟩, ⟨_, rfl, rfl⟩, Runs.at_session (Q := fun r _ => r = .error .zeroDivision) ?_⟩
  refine runs_describe_of_not_weighs fun hweighs => ?_
  obtain hbase | hmass := hweighs 1 (show 1 ∈ [0, 1] by decide)
  · cases hbase
  · exact hmass (add_zero 0)

end Act

end Linkage
