import Linkage.Config.Standard
import Linkage.Proofs.Atomicity
import Linkage.Proofs.Doubles
import Linkage.Proofs.Registry
import Linkage.Proofs.Working

/-!
# Linkage.Proofs.Failures — what can make a run fail

A correction divides by lengths, masses and sums of shares, and takes the sine and cosine of a wanted angle.  By the laws
of signs no divisor is ever zero where masses are positive and the configuration is valid, whatever infinities or
undefined numbers the positions have become (`lengthPass_succeeds`, `anglePass_succeeds`, `rayPass_succeeds`).  That
leaves the angle: with targets that can always be read, a run fails only for a wanted angle that is infinite, and ends
with a number otherwise (`correct_returns`).  It does fail there (`endless_turn_fails`), where an infinite length would
have been missed and rolled back.
-/

namespace Linkage

variable {α : Type}

/-- The target has the value `x`, wherever and whenever it is read. -/
inductive Target.Constant (x : α) : Target α → Prop where
  | fixed : Constant x (.fixed x)
  | callable (name : Label α) (read : Sight α → Except (Fault α) α) (h : ∀ v, read v = .ok x) :
      Constant x (.computed ⟨name, .callable read⟩)

theorem Target.Constant.references {x : α} {t : Target α} (h : t.Constant x) : t.references = [] := by
  cases h with
  | fixed => rfl
  | callable => rfl

/-- The pass does not fail on `s`. -/
def Pass.Succeeds {σ β : Type} (pass : Pass α σ β) (s : σ) : Prop := ∃ x s', pass s = .ok x s'

section Pass

variable {σ β γ : Type} {pass : Pass α σ β} {f : β → Pass α σ γ} {s t : σ} {x : β}

theorem Pass.succeeds_then (h : pass s = .ok x t) (hf : Succeeds (f x) t) : Succeeds (pass >>= f) s := by
  obtain ⟨y, s', hy⟩ := hf
  exact ⟨y, s', (Pass.then_ok h).trans hy⟩

theorem Pass.succeeds_ofExcept {r : Except (Fault α) β} (hr : r = .ok x) (hf : Succeeds (f x) s) :
    Succeeds (Pass.ofExcept r >>= f) s := by
  subst hr
  exact succeeds_then rfl hf

end Pass

variable [Scalar α]

theorem Scalar.divide_of_not_isZero {a b : α} (h : Scalar.isZero b = false) : Scalar.divide a b = .ok (a / b) := by
  unfold Scalar.divide
  rw [h]
  rfl

theorem Scalar.heading_of_not_infinite {x : α} (h : Scalar.isInfinite x = false) :
    Scalar.heading x = .ok ⟨Scalar.cos x, Scalar.sin x⟩ := by
  unfold Scalar.heading
  rw [h]
  rfl

theorem Scalar.heading_of_infinite {x : α} (h : Scalar.isInfinite x = true) :
    Scalar.heading x = .error .angleDomain := by
  unfold Scalar.heading
  rw [h]
  rfl

theorem exists_shares (m m' : α) : ∃ share, shares m m' = .ok share := by
  unfold shares
  dsimp only
  cases hsum : Scalar.isZero (m + m') with
  | true => exact ⟨_, rfl⟩
  | false =>
    rw [Scalar.divide_of_not_isZero hsum, Scalar.divide_of_not_isZero hsum]
    exact ⟨_, rfl⟩

/-- A base node, or one with a mass that corrections have not made lighter. -/
def Node.Sound (n : Node α) : Prop := n.base = true ∨ 0 < n.mass ∧ 0 ≤ n.boost

/-! ### Problems -/

/-- A wanted angle is infinite. -/
def Constraint.AimsAtInfinity (k : Constraint α) : Prop :=
  ∃ t x, k.angleTarget = some t ∧ t.Constant x ∧ Scalar.isInfinite x = true

namespace Assembly

open Act (Runs evaluate)

/-- Nothing but an infinite angle is in the way of correcting the constraint: its nodes have masses, its configuration a
positive reach, and its targets can be read. -/
structure WellPosed (a : Assembly α) (c : ConstraintId) : Prop where
  reach : 0 < (a.configOf c).reach
  massive : ∀ n ∈ (a.constraint c).shape.nodes, (a.node n).base = true ∨ 0 < (a.node n).mass
  constant : ∀ t ∈ (a.constraint c).targets, ∃ x, t.Constant x

/-- However far its system is relaxed, the constraint can read the target, and reads something infinite only if the target
has that value wherever it is read. -/
def Answers (a : Assembly α) (c : ConstraintId) (t : Target α) : Prop :=
  ∀ b, Relaxed a b → Runs (evaluate c t) b fun r _ => ∃ x, r = .ok x ∧ (Scalar.isInfinite x = true → t.Constant x)

/-- Nothing but a constant infinite angle is in the way of correcting the constraint, now and after relaxing. -/
structure Workable (a : Assembly α) (c : ConstraintId) : Prop where
  reach : 0 < (a.configOf c).reach
  massive : ∀ n ∈ (a.constraint c).shape.nodes, (a.node n).base = true ∨ 0 < (a.node n).mass
  answers : ∀ t ∈ (a.constraint c).targets, a.Answers c t

/-- The boosts of its nodes have been cleared, too. -/
structure Primed (a : Assembly α) (c : ConstraintId) : Prop extends Workable a c where
  sound : ∀ n ∈ (a.constraint c).shape.nodes, (a.node n).Sound

variable {a b : Assembly α} {c : ConstraintId}

theorem Workable.kept (h : a.Workable c) (hrelaxed : Relaxed a b) (hbodies : SameBodies a b) : b.Workable c where
  reach := by
    rw [hrelaxed.configOf]
    exact h.reach
  massive n hn := by
    obtain ⟨hmass, hbase⟩ := hbodies n
    rw [hmass, hbase]
    exact h.massive n (by rwa [hrelaxed.shape] at hn)
  answers t ht d hd := by
    unfold Constraint.targets at ht
    rw [hrelaxed.lengthTarget, hrelaxed.angleTarget] at ht
    exact h.answers t ht d (trans_of _ hrelaxed hd)

theorem SamePlan.aimsAtInfinity (h : a.SamePlan b) (c : ConstraintId) :
    (b.constraint c).AimsAtInfinity ↔ (a.constraint c).AimsAtInfinity := by
  unfold Constraint.AimsAtInfinity
  rw [h.angleTarget]

theorem targetValue_of_constant {t : Target α} {x : α} (h : t.Constant x) (c : ConstraintId) :
    a.targetValue c t = .ok x := by
  cases h with
  | fixed => rfl
  | callable name read h => exact h _

end Assembly

/-! ### Reading targets -/

namespace Act

open Assembly (Relaxed SameDesign WellPosed Workable)

/-- The answer is a value, or there is an infinite angle and it is that failure. -/
def Unfailing {β : Type} (infinite : Prop) (r : Except (Fault α) β) : Prop :=
  (∃ x, r = .ok x) ∨ r = .error .angleDomain ∧ infinite

variable {a : Assembly α} {c : ConstraintId}

theorem runs_evaluate_constant {t : Target α} {x : α} (h : t.Constant x) (c : ConstraintId) :
    Runs (evaluate c t) a fun r _ => r = .ok x := by
  refine (runs_evaluate a c t).mono fun r b ⟨_, hvalue⟩ => ?_
  rw [h.references] at hvalue
  rw [hvalue (fun _ hr => nomatch hr) fun _ hr => nomatch hr]
  exact Assembly.targetValue_of_constant h c

theorem answers_of_constant {t : Target α} (h : ∃ x, t.Constant x) : a.Answers c t := by
  obtain ⟨x, hx⟩ := h
  refine fun b _ => (runs_evaluate_constant hx c).mono ?_
  rintro _ _ rfl
  exact ⟨x, rfl, fun _ => hx⟩

/-- A well-posed constraint is workable. -/
theorem workable_of_wellPosed (h : a.WellPosed c) : a.Workable c :=
  ⟨h.reach, h.massive, fun t ht => answers_of_constant (h.constant t ht)⟩

/-- A target that answers and may be missing is read without a change to nodes or design. -/
theorem runs_optional_answering (c : ConstraintId) {t? : Option (Target α)} (h : ∀ t ∈ t?.toList, a.Answers c t) :
    Runs (match t? with
      | some t => return some (← evaluate c t)
      | none => return none) a fun r b => (SameDesign a b ∧ b.node = a.node) ∧ ∃ target?, r = .ok target? ∧
        ReadAs t? target? ∧ ∀ x, target? = some x → Scalar.isInfinite x = true → ∃ t, t? = some t ∧ t.Constant x := by
  have hread : Runs (match t? with
      | some t => return some (← evaluate c t)
      | none => return none) a fun r _ => ∃ target?, r = .ok target? ∧
        ∀ x, target? = some x → Scalar.isInfinite x = true → ∃ t, t? = some t ∧ t.Constant x := by
    cases t? with
    | none => exact runs_pure ⟨none, rfl, fun _ hx => nomatch hx⟩
    | some t =>
      refine runs_bind_pure ((h t (List.mem_singleton_self t) a (refl_of _ a)).mono ?_)
      rintro _ _ ⟨x, rfl, hconstant⟩
      refine ⟨some x, rfl, ?_⟩
      rintro _ ⟨⟩ hinfinite
      exact ⟨t, rfl, hconstant hinfinite⟩
  refine ((runs_optional_as a c t?).and hread).mono ?_
  rintro _ b ⟨⟨hsame, hvalue⟩, target?, rfl, hconstant⟩
  exact ⟨hsame, target?, rfl, hvalue _ rfl, hconstant⟩

theorem runs_targetLength_answering (h : a.Workable c) : Runs (targetLength c) a fun r b =>
    (SameDesign a b ∧ b.node = a.node) ∧ ∃ target?, r = .ok target? ∧ ReadAs (a.constraint c).lengthTarget target? ∧
      ∀ x, target? = some x → Scalar.isInfinite x = true → ∃ t, (a.constraint c).lengthTarget = some t ∧ t.Constant x :=
  runs_read (runs_optional_answering c fun t ht => h.answers t (List.mem_append_left _ ht))

theorem runs_targetAngle_answering (h : a.Workable c) : Runs (targetAngle c) a fun r b =>
    (SameDesign a b ∧ b.node = a.node) ∧ ∃ target?, r = .ok target? ∧ ReadAs (a.constraint c).angleTarget target? ∧
      ∀ x, target? = some x → Scalar.isInfinite x = true → ∃ t, (a.constraint c).angleTarget = some t ∧ t.Constant x :=
  runs_read (runs_optional_answering c fun t ht => h.answers t (List.mem_append_right _ ht))

theorem runs_onEnds_of_succeeds {β : Type} {first second : NodeId} {pass : Pass α (Ends α) β}
    (h : pass.Succeeds ⟨a.node first, a.node second⟩) : Runs (onEnds first second pass) a fun r _ => ∃ x, r = .ok x := by
  obtain ⟨x, e, hpass⟩ := h
  exact runs_onEnds hpass ⟨x, rfl⟩

end Act

/-! ### Passes -/

theorem anglePass_of_infinite {cfg : Config α} {direction : Direction} {target : α} {e : Ends α}
    (h : Scalar.isInfinite target = true) : anglePass cfg direction target e = .error .angleDomain e := by
  unfold anglePass
  rw [Scalar.heading_of_infinite h]
  rfl

section Signs

variable [Scalar.Signs α]

open Scalar.Signs

theorem Node.Sound.exists_inverseMass {n : Node α} (h : n.Sound) : ∃ m, n.inverseMass = .ok m := by
  unfold inverseMass
  split
  case isTrue => exact ⟨0, rfl⟩
  case isFalse hfree =>
    obtain ⟨hmass, hboost⟩ := h.resolve_left hfree
    have hpos : 0 < n.effectiveMass := add_pos (le_of_pos hmass) hboost (Or.inl hmass)
    exact ⟨_, Scalar.divide_of_not_isZero (not_isZero_of_pos hpos)⟩

/-- Work leaves a sound node sound. -/
theorem Node.Worked.sound {v w : Node α} (h : v.Worked w) (hv : v.Sound) : w.Sound := by
  refine h.preserves (P := Node.Sound) (fun _ _ _ hv => hv) ?_ ?_ hv
  · intro v hv
    unfold addBoost
    split
    case isTrue => exact hv
    case isFalse hfree =>
      obtain ⟨hmass, hboost⟩ := hv.resolve_left hfree
      exact Or.inr ⟨hmass, le_of_pos (add_pos hboost (le_of_pos one_pos) (Or.inr one_pos))⟩
  · intro v hv
    unfold clearBoost
    split
    case isTrue => exact hv
    case isFalse hfree => exact Or.inr ⟨(hv.resolve_left hfree).1, zero_le_zero⟩

theorem Ends.exists_shares {e : Ends α} (hfirst : e.first.Sound) (hsecond : e.second.Sound) :
    ∃ share, e.shares = .ok share := by
  obtain ⟨m, hm⟩ := hfirst.exists_inverseMass
  obtain ⟨m', hm'⟩ := hsecond.exists_inverseMass
  obtain ⟨share, hshare⟩ := Linkage.exists_shares m m'
  refine ⟨share, ?_⟩
  unfold Ends.shares
  rw [hm, hm']
  exact hshare

theorem Corner.exists_armShare {k : Corner α} (hapex : k.apex.Sound) (harm : k.arm.Sound) :
    ∃ share, k.armShare = .ok share := by
  obtain ⟨m, hm⟩ := hapex.exists_inverseMass
  obtain ⟨m', hm'⟩ := harm.exists_inverseMass
  unfold armShare
  rw [hm, hm']
  change ∃ share, (if Scalar.isZero (m + m') then _ else Scalar.divide m' (m + m')) = Except.ok share
  cases hsum : Scalar.isZero (m + m') with
  | true => exact ⟨m', rfl⟩
  | false => exact ⟨_, Scalar.divide_of_not_isZero hsum⟩

theorem Vec.exists_direction (v : Vec α) : ∃ u, v.direction = .ok u := by
  unfold direction
  dsimp only
  split
  case isTrue hlong =>
    have hlength := not_isZero_of_lt epsilon_pos hlong
    rw [Scalar.divide_of_not_isZero hlength, Scalar.divide_of_not_isZero hlength]
    exact ⟨_, rfl⟩
  case isFalse => exact ⟨_, rfl⟩

section Passes

variable {cfg : Config α} {target : α} {e : Ends α}

theorem reachPass_succeeds (hreach : 0 < cfg.reach) (share : α × α) : (reachPass cfg share).Succeeds e := by
  refine Pass.succeeds_then (t := e) rfl ?_
  dsimp only
  split
  case isTrue hfar =>
    have hlength := not_isZero_of_lt hreach hfar
    refine Pass.succeeds_ofExcept (Scalar.divide_of_not_isZero hlength) ?_
    refine Pass.succeeds_ofExcept (Scalar.divide_of_not_isZero hlength) ?_
    exact Pass.succeeds_then rfl ⟨_, _, rfl⟩
  case isFalse => exact ⟨_, _, rfl⟩

theorem anglePass_succeeds_of_shares {direction : Direction} {share : α × α} (hreach : 0 < cfg.reach)
    (hshare : e.shares = .ok share) (htarget : Scalar.isInfinite target = false) :
    (anglePass cfg direction target).Succeeds e := by
  refine Pass.succeeds_ofExcept (Scalar.heading_of_not_infinite htarget) ?_
  refine Pass.succeeds_then (t := e) rfl ?_
  refine Pass.succeeds_ofExcept hshare ?_
  refine Pass.succeeds_then rfl ?_
  obtain ⟨pulled, e', hpull⟩ := reachPass_succeeds (e := e.shift share (direction.correction e.vector
    ⟨Scalar.cos target, Scalar.sin target⟩)) hreach share
  refine Pass.succeeds_then hpull ?_
  exact Pass.succeeds_then rfl ⟨_, _, rfl⟩

theorem anglePass_succeeds {direction : Direction} (hreach : 0 < cfg.reach) (hfirst : e.first.Sound)
    (hsecond : e.second.Sound) (htarget : Scalar.isInfinite target = false) :
    (anglePass cfg direction target).Succeeds e := by
  obtain ⟨share, hshare⟩ := Ends.exists_shares hfirst hsecond
  exact anglePass_succeeds_of_shares hreach hshare htarget

theorem lengthPass_succeeds (hfirst : e.first.Sound) (hsecond : e.second.Sound) :
    (lengthPass cfg target).Succeeds e := by
  refine Pass.succeeds_then (t := e) rfl ?_
  dsimp only
  split
  case isTrue => exact ⟨_, _, rfl⟩
  case isFalse =>
    obtain ⟨u, hu⟩ := e.vector.exists_direction
    obtain ⟨share, hshare⟩ := Ends.exists_shares hfirst hsecond
    refine Pass.succeeds_ofExcept hu ?_
    refine Pass.succeeds_ofExcept hshare ?_
    refine Pass.succeeds_then rfl ?_
    exact Pass.succeeds_then rfl ⟨_, _, rfl⟩

theorem rayPass_succeeds {k : Corner α} (hray : ¬k.isFlat) (hapex : k.apex.Sound) (harm : k.arm.Sound)
    (htarget : Scalar.isInfinite target = false) : (rayPass cfg target).Succeeds k := by
  obtain ⟨share, hshare⟩ := Corner.exists_armShare hapex harm
  have hlength : Scalar.isZero k.rayVector.length = false :=
    not_isZero_of_not_le rootEpsilon_pos fun h => hray (decide_eq_true h)
  refine Pass.succeeds_then (t := k) rfl ?_
  refine Pass.succeeds_ofExcept (Scalar.divide_of_not_isZero hlength) ?_
  refine Pass.succeeds_ofExcept (Scalar.divide_of_not_isZero hlength) ?_
  refine Pass.succeeds_ofExcept (Scalar.heading_of_not_infinite htarget) ?_
  refine Pass.succeeds_ofExcept hshare ?_
  exact Pass.succeeds_then rfl ⟨_, _, rfl⟩

theorem rayPass_of_infinite {k : Corner α} (hray : ¬k.isFlat) (htarget : Scalar.isInfinite target = true) :
    rayPass cfg target k = .error .angleDomain k := by
  have hlength : Scalar.isZero k.rayVector.length = false :=
    not_isZero_of_not_le rootEpsilon_pos fun h => hray (decide_eq_true h)
  have hdivide (x : α) : Pass.ofExcept (Scalar.divide x k.rayVector.length) k = .ok (x / k.rayVector.length) k := by
    rw [Scalar.divide_of_not_isZero hlength]
    rfl
  have hget : (get : Pass α (Corner α) (Corner α)) k = .ok k k := rfl
  refine (Pass.then_ok hget).trans ((Pass.then_ok (hdivide _)).trans ((Pass.then_ok (hdivide _)).trans ?_))
  rw [Scalar.heading_of_infinite htarget]
  rfl

end Passes

/-! ### Preparation -/

namespace Assembly

variable {a b : Assembly α} {c : ConstraintId}

theorem Primed.worked (h : a.Primed c) (hrelaxed : Relaxed a b) (hworked : ∀ n, (a.node n).Worked (b.node n)) :
    b.Primed c where
  toWorkable := h.toWorkable.kept hrelaxed (sameBodies_of_worked hworked)
  sound n hn := (hworked n).sound (h.sound n (by rwa [hrelaxed.shape] at hn))

/-- Preparing workable constraints primes them. -/
theorem primed_prepareAll {constraints : List ConstraintId} (h : ∀ c ∈ constraints, a.Workable c) (first : Bool) :
    ∀ c ∈ constraints, (a.prepareAll first constraints).Primed c := by
  have hrelaxed := relaxed_prepareAll first constraints a
  intro c hc
  refine ⟨(h c hc).kept hrelaxed (sameBodies_prepareAll first constraints a), fun n hn => ?_⟩
  rw [hrelaxed.shape] at hn
  have hmem : n ∈ a.nodesOf constraints := List.mem_flatMap.mpr ⟨c, hc, hn⟩
  rw [node_prepareAll, if_pos hmem]
  unfold Node.clearBoost
  split
  case isTrue hbase => exact Or.inl hbase
  case isFalse hfree => exact Or.inr ⟨((h c hc).massive n hn).resolve_left hfree, zero_le_zero⟩

end Assembly

namespace Act

open Assembly (Corrected Primed Relaxed Workable)

variable {a : Assembly α} {c : ConstraintId}

/-! ### Corrections -/

theorem runs_meet_angle {cfg : Config α} {direction : Direction} {first second : NodeId} (hreach : 0 < cfg.reach)
    (hfirst : (a.node first).Sound) (hsecond : (a.node second).Sound) (target? : Option α) :
    Runs (meet (fun target => onEnds first second (anglePass cfg direction target)) target?) a fun r _ =>
      Unfailing (∃ x, target? = some x ∧ Scalar.isInfinite x = true) r := by
  cases target? with
  | none => exact runs_pure (Or.inl ⟨true, rfl⟩)
  | some x =>
    cases hx : Scalar.isInfinite x with
    | false =>
      exact (runs_onEnds_of_succeeds (anglePass_succeeds hreach hfirst hsecond hx)).mono fun _ _ hok => Or.inl hok
    | true =>
      have hpass : anglePass cfg direction x ⟨a.node first, a.node second⟩ = .error .angleDomain _ :=
        anglePass_of_infinite hx
      refine runs_read ?_
      rw [hpass]
      exact runs_after_change (runs_throw (Or.inr ⟨rfl, x, rfl, hx⟩))

theorem runs_meet_length {cfg : Config α} {first second : NodeId} (hfirst : (a.node first).Sound)
    (hsecond : (a.node second).Sound) (target? : Option α) :
    Runs (meet (fun target => onEnds first second (lengthPass cfg target)) target?) a fun r _ => ∃ met, r = .ok met := by
  cases target? with
  | none => exact runs_pure ⟨true, rfl⟩
  | some x => exact runs_onEnds_of_succeeds (lengthPass_succeeds hfirst hsecond)

theorem runs_correctOne_pair_unfailing (h : a.Primed c) {first second : NodeId} {direction : Direction}
    (hshape : (a.constraint c).shape = .pair first second direction) :
    Runs (correctOne c) a fun r _ => Unfailing (a.constraint c).AimsAtInfinity r := by
  have hfirst : (a.node first).Sound := h.sound first (by rw [hshape]; exact List.mem_cons_self)
  have hsecond : (a.node second).Sound :=
    h.sound second (by rw [hshape]; exact List.mem_cons_of_mem _ List.mem_cons_self)
  have hkeep (angle? : Option α) : Keeps (Corrected [first, second])
      (meet (fun target => onEnds first second (anglePass (a.configOf c) direction target)) angle?) := by
    cases angle? with
    | some target => exact keeps_onEnds (by simp) (by simp) _
    | none => exact keeps_pure true
  refine runs_read ?_
  rw [hshape]
  have hconsults : Runs (targetAngle c) a fun _ b => Corrected [first, second] a b := keeps_targetAngle c a
  refine runs_bind (((runs_targetAngle_answering h.toWorkable).and hconsults).mono ?_)
  rintro r b ⟨⟨⟨-, hnode⟩, angle?, rfl, hread, hconstant⟩, hconsulted⟩
  rw [then_ok]
  rw [← hnode] at hfirst hsecond
  -- with sound ends the angle pass fails for an infinite angle only, and leaves ends that are sound again
  refine runs_bind ((((runs_meet_angle h.reach hfirst hsecond angle?).and
    (runs_meet_ok hread b first second _)).and (hkeep angle? b)).mono ?_)
  rintro r mid ⟨⟨hangle, hmeets⟩, hcorrected⟩
  obtain ⟨angleMet, rfl⟩ | ⟨rfl, x, hx, hinfinite⟩ := hangle
  · rw [then_ok]
    have hworked := (hmeets angleMet rfl).worked fun ran => (turns_of_anglePass ran).worked
    have hmid : mid.Workable c := by
      refine h.toWorkable.kept (trans_of _ hconsulted.relaxed hcorrected.relaxed) (Assembly.sameBodies_of_worked fun n => ?_)
      rw [← hnode]
      exact hworked n
    refine runs_bind ((runs_targetLength_answering hmid).mono ?_)
    rintro r mid' ⟨⟨-, hnode'⟩, length?, rfl, -⟩
    rw [then_ok]
    have hfirst' : (mid'.node first).Sound := by
      rw [hnode']
      exact (hworked first).sound hfirst
    have hsecond' : (mid'.node second).Sound := by
      rw [hnode']
      exact (hworked second).sound hsecond
    refine runs_bind_pure ((runs_meet_length hfirst' hsecond' length?).mono ?_)
    rintro r _ ⟨lengthMet, rfl⟩
    exact Or.inl ⟨_, rfl⟩
  -- the infinite angle is one that the constraint aims at, since no other target can be infinite
  · rw [then_error]
    obtain ⟨t, ht, hconstant⟩ := hconstant x hx hinfinite
    exact Or.inr ⟨rfl, t, x, ht, hconstant, hinfinite⟩

theorem runs_correctOne_triple_unfailing (h : a.Primed c) {apex ray arm : NodeId}
    (hshape : (a.constraint c).shape = .triple apex ray arm) :
    Runs (correctOne c) a fun r _ => Unfailing (a.constraint c).AimsAtInfinity r := by
  have hapex : (a.node apex).Sound := h.sound apex (by rw [hshape]; exact List.mem_cons_self)
  have harm : (a.node arm).Sound := h.sound arm (by rw [hshape]; simp [Shape.nodes])
  refine runs_read ?_
  rw [hshape]
  cases htarget : (a.constraint c).angleTarget with
  | none => exact runs_pure (Or.inl ⟨true, rfl⟩)
  | some t =>
    dsimp only
    split
    case isTrue => exact runs_pure (Or.inl ⟨true, rfl⟩)
    case isFalse hray =>
      have ht : t ∈ (a.constraint c).targets :=
        List.mem_append_right _ (by rw [htarget]; exact List.mem_singleton_self t)
      refine runs_bind (((h.answers t ht a (refl_of _ a)).and (runs_evaluate a c t)).mono ?_)
      rintro _ b ⟨⟨x, rfl, hconstant⟩, hconsulted, -⟩
      rw [then_ok]
      refine runs_read ?_
      rw [show b.node = a.node from funext hconsulted.node]
      cases hinfinite : Scalar.isInfinite x with
      | false =>
        obtain ⟨met, corner, hpass⟩ := rayPass_succeeds hray hapex harm hinfinite
        rw [hpass]
        exact runs_after_change (runs_pure (Or.inl ⟨met, rfl⟩))
      | true =>
        rw [rayPass_of_infinite hray hinfinite]
        exact runs_after_change (runs_throw (Or.inr ⟨rfl, t, x, htarget, hconstant hinfinite, hinfinite⟩))

/-- Correcting a primed constraint fails only for an infinite angle. -/
theorem runs_correctOne_unfailing (h : a.Primed c) :
    Runs (correctOne c) a fun r _ => Unfailing (a.constraint c).AimsAtInfinity r := by
  cases hshape : (a.constraint c).shape with
  | pair first second direction => exact runs_correctOne_pair_unfailing h hshape
  | triple apex ray arm => exact runs_correctOne_triple_unfailing h hshape

/-! ### Sweeps -/

variable {constraints : List ConstraintId}

/-- Correcting primed constraints in a row fails only for an infinite angle, and leaves them primed otherwise. -/
theorem runs_correctAll_unfailing {some : List ConstraintId} (hsome : some ⊆ constraints)
    (h : ∀ c ∈ constraints, a.Primed c) : Runs (correctAll some) a fun r b => Relaxed a b ∧
      Unfailing (∃ c ∈ constraints, (a.constraint c).AimsAtInfinity) r ∧
      ((∃ met, r = .ok met) → ∀ c ∈ constraints, b.Primed c) := by
  -- by induction on the constraints left: each correction leaves all of them primed for the next
  induction some generalizing a with
  | nil => exact runs_pure ⟨refl_of _ a, Or.inl ⟨true, rfl⟩, fun _ => h⟩
  | cons c rest ih =>
    obtain ⟨hc, hrest⟩ := List.cons_subset.mp hsome
    refine runs_bind ((((runs_correctOne_unfailing (h c hc)).and (runs_correctOne_ok a c)).and
      (relaxed_correctOne c a)).mono ?_)
    rintro r b ⟨⟨hunfailing, hcorrects⟩, hrelaxed⟩
    obtain ⟨met, rfl⟩ | ⟨rfl, haims⟩ := hunfailing
    · rw [then_ok]
      have hb (d : ConstraintId) (hd : d ∈ constraints) : b.Primed d :=
        (h d hd).worked hrelaxed (hcorrects met rfl).worked
      refine runs_bind_pure ((ih hrest hb).mono ?_)
      rintro r' b' ⟨hrelaxed', hunfailing', hprimed⟩
      simp only [hrelaxed.aimsAtInfinity] at hunfailing'
      obtain ⟨restMet, rfl⟩ | ⟨rfl, haims⟩ := hunfailing'
      · exact ⟨trans_of _ hrelaxed hrelaxed', Or.inl ⟨_, rfl⟩, fun _ => hprimed ⟨restMet, rfl⟩⟩
      · exact ⟨trans_of _ hrelaxed hrelaxed', Or.inr ⟨rfl, haims⟩, fun ⟨_, hok⟩ => nomatch hok⟩
    · rw [then_error]
      exact ⟨hrelaxed, Or.inr ⟨rfl, c, hc, haims⟩, fun ⟨_, hok⟩ => nomatch hok⟩

/-- So does a sweep over workable constraints. -/
theorem runs_sweep_unfailing (h : ∀ c ∈ constraints, a.Workable c) (first : Bool) :
    Runs (sweep first constraints) a fun r b => Relaxed a b ∧
      Unfailing (∃ c ∈ constraints, (a.constraint c).AimsAtInfinity) r ∧
      ((∃ met, r = .ok met) → ∀ c ∈ constraints, b.Workable c) := by
  have hrelaxed := Assembly.relaxed_prepareAll first constraints a
  refine runs_after_change ((runs_correctAll_unfailing (List.Subset.refl _)
    (Assembly.primed_prepareAll h first)).mono ?_)
  rintro r b ⟨hrelaxed', hunfailing, hprimed⟩
  simp only [hrelaxed.aimsAtInfinity] at hunfailing
  exact ⟨trans_of _ hrelaxed hrelaxed', hunfailing, fun hok c hc => (hprimed hok c hc).toWorkable⟩

theorem runs_sweepsFrom_unfailing (h : ∀ c ∈ constraints, a.Workable c) (s : SystemId) (left done : Nat) :
    Runs (sweepsFrom s constraints left done) a fun r b => Relaxed a b ∧
      Unfailing (∃ c ∈ constraints, (a.constraint c).AimsAtInfinity) r ∧
      ((∃ verdict, r = .ok verdict) → ∀ c ∈ constraints, b.Workable c) := by
  -- by induction on the sweeps left: a sweep leaves the constraints workable, and preparing the next one primes them
  induction left generalizing a done with
  | zero => exact runs_pure ⟨refl_of _ a, Or.inl ⟨_, rfl⟩, fun _ => h⟩
  | succ left ih =>
    refine runs_bind ((runs_sweep_unfailing h (done == 0)).mono ?_)
    rintro r b ⟨hrelaxed, hunfailing, hworkable⟩
    obtain ⟨met, rfl⟩ | ⟨rfl, haims⟩ := hunfailing
    · rw [then_ok]
      have hb := hworkable ⟨met, rfl⟩
      refine runs_read ?_
      split
      · exact runs_after_report (runs_pure ⟨hrelaxed, Or.inl ⟨_, rfl⟩, fun _ => hb⟩)
      · split
        · exact runs_pure ⟨hrelaxed, Or.inl ⟨_, rfl⟩, fun _ => hb⟩
        · refine (ih hb (done + 1)).mono fun r' b' ⟨hrelaxed', hunfailing', hworkable'⟩ => ?_
          simp only [hrelaxed.aimsAtInfinity] at hunfailing'
          exact ⟨trans_of _ hrelaxed hrelaxed', hunfailing', hworkable'⟩
    · exact ⟨hrelaxed, Or.inr ⟨rfl, haims⟩, fun ⟨_, hok⟩ => nomatch hok⟩

/-- A run over workable constraints fails only for an infinite angle, and leaves them workable otherwise. -/
theorem runs_correct_workable {s : SystemId} (h : ∀ c ∈ (a.system s).constraints, a.Workable c) :
    Runs (correct s) a fun r b => Unfailing (∃ c ∈ (a.system s).constraints, (a.constraint c).AimsAtInfinity) r ∧
      ((∃ k, r = .ok k) → ∀ c ∈ (a.system s).constraints, b.Workable c) := by
  refine runs_traced (runs_read (runs_bind (runs_outcome ((runs_sweepsFrom_unfailing h s _ 0).mono ?_))))
  rintro r b ⟨hrelaxed, ⟨verdict, rfl⟩ | ⟨rfl, haims⟩, hworkable⟩
  · rw [then_ok]
    have hb := hworkable ⟨verdict, rfl⟩
    cases verdict with
    | unmet done =>
      refine runs_after_rollback (runs_after_report (runs_pure ⟨Or.inl ⟨_, rfl⟩, fun _ c hc => ?_⟩))
      exact (hb c hc).kept (Assembly.relaxed_restoreAll _ b) (Assembly.sameBodies_restoreAll _ b)
    | met done => exact runs_after_report (runs_pure ⟨Or.inl ⟨_, rfl⟩, fun _ => hb⟩)
  · rw [then_ok]
    exact runs_after_rollback (runs_throw ⟨Or.inr ⟨rfl, haims⟩, fun ⟨_, hok⟩ => nomatch hok⟩)

/-- A run over well-posed constraints fails only for an infinite angle. -/
theorem runs_correct_unfailing {s : SystemId} (h : ∀ c ∈ (a.system s).constraints, a.WellPosed c) :
    Runs (correct s) a fun r _ => Unfailing (∃ c ∈ (a.system s).constraints, (a.constraint c).AimsAtInfinity) r :=
  (runs_correct_workable fun c hc => workable_of_wellPosed (h c hc)).mono fun _ _ h => h.1

end Act

end Signs

/-! ### Runs on doubles -/

namespace Act

open Assembly (Consistent Placed WellPosed)

/-- A run on doubles, with positive masses, a valid configuration and targets that have one value each, infinite or
undefined ones included: if sweeps converge within the cap, it answers their number.  If they do not, for whatever
reason, every node is in its place, and the answer is zero unless a wanted angle is infinite. -/
theorem correct_returns (st : Session Float) (hst : st.assembly.Consistent) (s : SystemId)
    (hvalid : (st.assembly.config (st.assembly.system s).config).Valid)
    (hmass : ∀ n ∈ (st.assembly.system s).nodes, 0 < (st.assembly.node n).mass)
    (hconstant : ∀ c ∈ (st.assembly.system s).constraints, ∀ t ∈ (st.assembly.constraint c).targets,
      ∃ x, t.Constant x) :
    (∃ k, 1 ≤ k ∧ k ≤ (st.assembly.config (st.assembly.system s).config).cap ∧
        Converges s (st.assembly.system s).constraints k st ∧ (correct s).answer st = .ok k) ∨
    ((¬∃ k, 1 ≤ k ∧ k ≤ (st.assembly.config (st.assembly.system s).config).cap ∧
        Converges s (st.assembly.system s).constraints k st) ∧
      (∀ n, Placed st.assembly ((correct s).after st).assembly n) ∧
      ((correct s).answer st = .ok 0 ∨ (correct s).answer st = .error .angleDomain ∧
        ∃ c ∈ (st.assembly.system s).constraints, (st.assembly.constraint c).AimsAtInfinity)) := by
  have hwell (c : ConstraintId) (hc : c ∈ (st.assembly.system s).constraints) : st.assembly.WellPosed c := by
    refine ⟨?_, fun n hn => Or.inr (hmass n (hst.listed s c hc hn)), hconstant c hc⟩
    rw [hst.configOf hc]
    exact hvalid.2.2
  have hcounted := (runs_correct st s).at_session
  have hplaced := (runs_correct_placed st s hvalid.1).at_session
  have hnever (hanswer : ∀ k, 1 ≤ k → (correct s).answer st ≠ .ok k) :
      ¬∃ k, 1 ≤ k ∧ k ≤ (st.assembly.config (st.assembly.system s).config).cap ∧
        Converges s (st.assembly.system s).constraints k st := by
    rintro ⟨k, hk, hconverges⟩
    exact hanswer k hk ((hcounted k hk).1.mpr hconverges)
  obtain ⟨k, hanswer⟩ | ⟨hanswer, haims⟩ := (runs_correct_unfailing hwell).at_session
  · cases k with
    | zero =>
      refine Or.inr ⟨hnever fun k hk h => ?_, hplaced (Or.inl hanswer), Or.inl hanswer⟩
      cases hanswer.symm.trans h
      omega
    | succ k =>
      have hconverges := ((hcounted (k + 1) (Nat.succ_pos k)).1).mp hanswer
      exact Or.inl ⟨k + 1, Nat.succ_pos k, hconverges.1, hconverges.2, hanswer⟩
  · refine Or.inr ⟨hnever fun k _ h => ?_, hplaced (Or.inr ⟨_, hanswer⟩), Or.inr ⟨hanswer, haims⟩⟩
    exact nomatch hanswer.symm.trans h

/-- A bar that has to become infinitely long. -/
def endlessBar : Session Float :=
  run [.newSystem none, .node 0 0 0 { base := some true }, .node 0 10 0 {},
    .pair 0 0 1 { length := some (.number (.float (1 / 0))) }] ⟨.empty .standard, .empty Level.warning⟩

theorem correct_returns_endless : (correct 0).answer endlessBar = .ok 0 ∧
    ∀ n, Placed endlessBar.assembly ((correct 0).after endlessBar).assembly n := by
  have hconsistent : endlessBar.assembly.Consistent := consistent_run (Assembly.consistent_empty _) _
  have hvalid : (endlessBar.assembly.config (endlessBar.assembly.system 0).config).Valid := by decide +kernel
  have hmass : ∀ n ∈ (endlessBar.assembly.system 0).nodes, 0 < (endlessBar.assembly.node n).mass := by decide +kernel
  have hconstant : ∀ c ∈ (endlessBar.assembly.system 0).constraints,
      ∀ t ∈ (endlessBar.assembly.constraint c).targets, ∃ x, t.Constant x := by
    intro c hc t ht
    obtain rfl := List.mem_singleton.mp (show c ∈ [0] from hc)
    obtain rfl := List.mem_singleton.mp (show t ∈ [.fixed (1 / 0)] from ht)
    exact ⟨_, .fixed⟩
  have hanswer : (correct 0).answer endlessBar = .ok 0 := eq_ok_of_toOption (by decide +kernel)
  obtain ⟨k, hk, -, -, hcounted⟩ | ⟨-, hplaced, -⟩ :=
    correct_returns endlessBar hconsistent 0 hvalid hmass hconstant
  · cases hanswer.symm.trans hcounted
    exact nomatch hk
  · exact ⟨hanswer, hplaced⟩

/-- A bar that has to turn to an infinite angle. -/
def endlessTurn : Session Float :=
  run [.newSystem none, .node 0 0 0 { base := some true }, .node 0 10 0 {},
    .pair 0 0 1 { angle := some (.number (.float (1 / 0))) }] ⟨.empty .standard, .empty Level.warning⟩

/-- An infinite angle is not missed and rolled back as an infinite length is, but makes the run fail. -/
theorem endless_turn_fails :
    (endlessTurn.assembly.config (endlessTurn.assembly.system 0).config).Valid ∧ endlessTurn.assembly.isFinite 0 ∧
      (∀ n ∈ (endlessTurn.assembly.system 0).nodes, 0 < (endlessTurn.assembly.node n).mass) ∧
      (∀ c ∈ (endlessTurn.assembly.system 0).constraints, ∀ t ∈ (endlessTurn.assembly.constraint c).targets,
        ∃ x, t.Constant x) ∧
      ∃ fault, (correct 0).answer endlessTurn = .error fault := by
  refine ⟨by decide +kernel, by decide +kernel, by decide +kernel, fun c hc t ht => ?_, ?_⟩
  · obtain rfl := List.mem_singleton.mp (show c ∈ [0] from hc)
    obtain rfl := List.mem_singleton.mp (show t ∈ [.fixed (1 / 0)] from ht)
    exact ⟨_, .fixed⟩
  · exact exists_error_of_not_isOk (by decide +kernel)

end Act

end Linkage
