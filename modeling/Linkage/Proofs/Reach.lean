import Linkage.Proofs.Divisors
import Linkage.Proofs.Satisfaction

/-!
# Linkage.Proofs.Reach — which pairs a configuration keeps within reach

The reach of a configuration is enforced by the angle pass and by nothing else.  In exact arithmetic a pair is within
reach when its angle pass is done, if one of its ends can move at all (`Turns.length_le`), and a length pass that is met
afterwards moves nothing.  So after a run that met every constraint a pair with a wanted angle is within reach, up to the
tolerance and what later registrations take away (`correct_within_reach`).  A pair without one is as long as it
wants to be, whether that is within reach or not (`reach_exceeded`).
-/

namespace Linkage

/-! ### Turning and pulling -/

theorem Node.Heavy.inverseMass_pos {n : Node ℝ} (h : n.Heavy) (hfree : n.base = false) {m : ℝ}
    (hm : n.inverseMass = .ok m) : 0 < m := by
  unfold Node.inverseMass at hm
  rw [hfree] at hm
  obtain ⟨-, rfl⟩ := Scalar.divide_eq_ok.mp hm
  exact one_div_pos.mpr (h.effectiveMass_pos hfree)

/-- The shares of two ends make up the whole, unless neither can move. -/
theorem Ends.shares_sum {e : Ends ℝ} (hfirst : e.first.Heavy) (hsecond : e.second.Heavy)
    (hfree : e.first.base = false ∨ e.second.base = false) {share : ℝ × ℝ} (h : e.shares = .ok share) :
    share.1 + share.2 = 1 := by
  obtain ⟨p, hp, h⟩ := ok_of_bind h
  obtain ⟨q, hq, h⟩ := ok_of_bind h
  -- an end that can move has a positive inverse mass, so that the two do not cancel
  have hpos : 0 < p + q := by
    rcases hfree with hfree | hfree
    · exact add_pos_of_pos_of_nonneg (hfirst.inverseMass_pos hfree hp) (hsecond.inverseMass_nonneg hq)
    · exact add_pos_of_nonneg_of_pos (hfirst.inverseMass_nonneg hp) (hsecond.inverseMass_pos hfree hq)
  unfold Linkage.shares at h
  dsimp only at h
  split at h
  case isTrue hzero => exact absurd ((Scalar.isZero_real _).mp hzero) hpos.ne'
  case isFalse =>
    obtain ⟨s₁, hs₁, h⟩ := ok_of_bind h
    obtain ⟨s₂, hs₂, h⟩ := ok_of_bind h
    cases h
    obtain ⟨hne, rfl⟩ := Scalar.divide_eq_ok.mp hs₁
    obtain ⟨-, rfl⟩ := Scalar.divide_eq_ok.mp hs₂
    rw [← add_div]
    exact div_self hne

section Turns

variable {cfg : Config ℝ} {e e' : Ends ℝ} {met : Bool}

/-- Ends that are pulled by shares of a whole are within reach afterwards. -/
theorem Pulls.length_le {share : ℝ × ℝ} (h : Pulls cfg share e met e') (hshare : share.1 + share.2 = 1)
    (hreach : 0 < cfg.reach) : e'.vector.length ≤ cfg.reach := by
  cases h with
  | within near => exact not_lt.mp near
  | beyond far d along above =>
    set r := e.vector.length with hr
    have hpos : 0 < r := hreach.trans far
    obtain ⟨-, hdx⟩ := Scalar.divide_eq_ok.mp along
    obtain ⟨-, hdy⟩ := Scalar.divide_eq_ok.mp above
    -- the whole of the excess is taken off
    have hscaled : (e.shift share d).vector.toComplex = (cfg.reach / r : ℝ) * e.vector.toComplex := by
      rw [(Ends.drifts_shift share d e).vector, hshare, Complex.ofReal_one, one_mul]
      apply Complex.ext
      · rw [Complex.re_ofReal_mul]
        change e.vector.x - d.x = _ * e.vector.x
        rw [hdx]
        field_simp
        ring
      · rw [Complex.im_ofReal_mul]
        change e.vector.y - d.y = _ * e.vector.y
        rw [hdy]
        field_simp
        ring
    rw [Vec.length_eq_norm, hscaled, norm_mul, ← Vec.length_eq_norm, ← hr, Complex.norm_real,
      Real.norm_of_nonneg (div_nonneg hreach.le hpos.le), div_mul_cancel₀ _ hpos.ne']

/-- Ends that are turned are within reach afterwards, unless neither can move. -/
theorem Turns.length_le {direction : Direction} {w : ℝ} (h : Turns cfg direction w e met e') (hfirst : e.first.Heavy)
    (hsecond : e.second.Heavy) (hfree : e.first.base = false ∨ e.second.base = false) (hreach : 0 < cfg.reach) :
    e'.vector.length ≤ cfg.reach := by
  cases h with
  | turned heading share pulled e'' towards shared pulls =>
    have hsum := Ends.shares_sum hfirst hsecond hfree shared
    rw [Vec.length_eq_norm, Ends.vector_addBoost, ← Vec.length_eq_norm]
    exact pulls.length_le hsum hreach

/-- The two nodes of a pair that is turned are within reach afterwards, unless neither can move. -/
theorem Turns.length_put_le {node : NodeId → Node ℝ} {first second : NodeId} {direction : Direction} {w : ℝ}
    (h : Turns cfg direction w ⟨node first, node second⟩ met e') (hfirst : (node first).Heavy)
    (hsecond : (node second).Heavy) (hfree : (node first).base = false ∨ (node second).base = false)
    (hreach : 0 < cfg.reach) :
    ((e'.put first second node first).vectorTo (e'.put first second node second)).length ≤ cfg.reach := by
  by_cases hsame : second = first
  · rw [hsame, Vec.length_eq_norm, Node.toComplex_vectorTo, sub_self, norm_zero]
    exact hreach.le
  · have hput : e'.put first second node first = e'.first := by simp [Ends.put, hsame]
    have hput' : e'.put first second node second = e'.second := by simp [Ends.put]
    rw [hput, hput']
    exact h.length_le hfirst hsecond hfree hreach

end Turns

namespace Act

open Assembly (Corrected SameDesign)

variable {α : Type} [Scalar α] {c : ConstraintId} {first second : NodeId} {direction : Direction}

/-! ### One correction of a sweep -/

/-- A sweep that does not fail has corrected one constraint between those before it and those after it. -/
theorem answersOf_split {st : Session α} {before after : List ConstraintId} {answers : List Bool}
    (h : (answersOf (before ++ c :: after)).answer st = .ok answers) :
    ∃ earlier met later, answers = earlier ++ met :: later ∧
      (correctOne c).answer ((answersOf before).after st) = .ok met ∧
      (answersOf after).answer ((correctOne c).after ((answersOf before).after st)) = .ok later ∧
      (answersOf (before ++ c :: after)).after st =
        (answersOf after).after ((correctOne c).after ((answersOf before).after st)) := by
  induction before generalizing st answers with
  | nil =>
    obtain ⟨met, hmet, hrest⟩ := answer_bind_eq_ok h
    obtain ⟨later, hlater, hanswers⟩ := answer_bind_eq_ok hrest
    cases hanswers
    exact ⟨[], met, later, rfl, hmet, hlater, (after_bind_ok hmet).trans after_bind_pure⟩
  | cons d before ih =>
    obtain ⟨met, hmet, hrest⟩ := answer_bind_eq_ok h
    obtain ⟨answers', hanswers', hanswers⟩ := answer_bind_eq_ok hrest
    cases hanswers
    obtain ⟨earlier, met', later, rfl, hcorrect, hlater, hafter⟩ := ih hanswers'
    have hbefore : (answersOf (d :: before)).after st = (answersOf before).after ((correctOne d).after st) :=
      (after_bind_ok hmet).trans after_bind_pure
    have hall : (answersOf (d :: (before ++ c :: after))).after st =
        (answersOf (before ++ c :: after)).after ((correctOne d).after st) :=
      (after_bind_ok hmet).trans after_bind_pure
    rw [hbefore]
    exact ⟨met :: earlier, met', later, rfl, hcorrect, hlater, hall.trans hafter⟩

/-- A pair is met where both halves of its correction are. -/
theorem correctOne_met {st : Session α} (hshape : (st.assembly.constraint c).shape = .pair first second direction)
    (h : (correctOne c).answer st = .ok true) :
    (turnOne c).answer st = .ok true ∧ (stretchOne c).answer ((turnOne c).after st) = .ok true ∧
      (correctOne c).after st = (stretchOne c).after ((turnOne c).after st) := by
  rw [answer_congr (correctOne_of_pair hshape)] at h
  obtain ⟨angleMet, hturn, hrest⟩ := answer_bind_eq_ok h
  obtain ⟨lengthMet, hstretch, hmet⟩ := answer_bind_eq_ok hrest
  obtain ⟨rfl, rfl⟩ := (Bool.and_eq_true ..).mp (Except.ok.inj hmet)
  exact ⟨hturn, hstretch, (after_congr (correctOne_of_pair hshape)).trans
    ((after_bind_ok hturn).trans after_bind_pure)⟩

/-- The wanted length of a pair that is met is near, and nothing moves for it. -/
theorem stretchOne_met {st : Session α} (hshape : (st.assembly.constraint c).shape = .pair first second direction)
    (h : (stretchOne c).answer st = .ok true) :
    ((stretchOne c).after st).assembly.node = st.assembly.node ∧
      ∀ x, (targetLength c).answer st = .ok (some x) →
        Scalar.abs (x - ((st.assembly.node first).vectorTo (st.assembly.node second)).length) <
          (st.assembly.configOf c).tolerance := by
  rw [answer_congr (stretchOne_of_pair hshape)] at h
  obtain ⟨length?, hread, hmet⟩ := answer_bind_eq_ok h
  obtain ⟨⟨-, hnode⟩, hreads⟩ := (runs_targetLength_as st.assembly c).at_session
  have hmeets := (runs_meet_ok (hreads length? hread) ((targetLength c).after st).assembly first second
    (lengthPass (st.assembly.configOf c))).at_session true hmet
  rw [after_congr (stretchOne_of_pair hshape), after_bind_ok hread, hmeets.node_eq_of_length, hnode]
  refine ⟨rfl, fun x hx => ?_⟩
  cases hread.symm.trans hx
  obtain ⟨e, hran, -⟩ := (runs_onEnds_ok ((targetLength c).after st).assembly first second
    (lengthPass (st.assembly.configOf c) x)).at_session true hmet
  rw [hnode] at hran
  cases stretches_of_lengthPass hran with
  | met near => exact near

/-- The first half runs the angle pass, if there is a wanted angle. -/
theorem turnOne_met {st : Session α} (hshape : (st.assembly.constraint c).shape = .pair first second direction)
    (hangle : (st.assembly.constraint c).angleTarget.isSome) {met : Bool} (h : (turnOne c).answer st = .ok met) :
    ∃ w e, Turns (st.assembly.configOf c) direction w ⟨st.assembly.node first, st.assembly.node second⟩ met e ∧
      ((turnOne c).after st).assembly.node = e.put first second st.assembly.node := by
  rw [answer_congr (turnOne_of_pair hshape)] at h
  obtain ⟨angle?, hread, hmet⟩ := answer_bind_eq_ok h
  obtain ⟨⟨-, hnode⟩, hreads⟩ := (runs_targetAngle_as st.assembly c).at_session
  obtain ⟨w, rfl⟩ : ∃ w, angle? = some w := Option.isSome_iff_exists.mp ((hreads angle? hread).1.symm.trans hangle)
  obtain ⟨e, hran, hput⟩ := (runs_onEnds_ok ((targetAngle c).after st).assembly first second
    (anglePass (st.assembly.configOf c) direction w)).at_session met hmet
  rw [hnode] at hran hput
  rw [after_congr (turnOne_of_pair hshape), after_bind_ok hread]
  exact ⟨w, e, turns_of_anglePass hran, hput⟩

/-- Turning leaves a pair with an end that can move within reach. -/
theorem length_turnOne_le {st : Session ℝ} {cs : List ConstraintId} (hfirm : st.assembly.Firm cs) (hmem : c ∈ cs)
    (hshape : (st.assembly.constraint c).shape = .pair first second direction)
    (hangle : (st.assembly.constraint c).angleTarget.isSome)
    (hfree : (st.assembly.node first).base = false ∨ (st.assembly.node second).base = false) {met : Bool}
    (h : (turnOne c).answer st = .ok met) :
    ((((turnOne c).after st).assembly.node first).vectorTo
      (((turnOne c).after st).assembly.node second)).length ≤ (st.assembly.configOf c).reach := by
  have hheavy (n : NodeId) (hn : n ∈ [first, second]) : (st.assembly.node n).Heavy :=
    (hfirm.node hmem (by rwa [hshape])).heavy
  obtain ⟨w, e, hturns, hput⟩ := turnOne_met hshape hangle h
  rw [hput]
  exact hturns.length_put_le (hheavy first (by simp)) (hheavy second (by simp)) hfree (hfirm.reach c hmem)

/-- The correction of one constraint in the last sweep of a run that met every constraint, and the corrections after it,
which leave the nodes as the run does. -/
theorem correct_last {st : Session α} {s : SystemId} {k : Nat} (hk : 1 ≤ k) (hanswer : (correct s).answer st = .ok k)
    {cs before after : List ConstraintId} (hcs : cs = (st.assembly.system s).constraints)
    (hsplit : cs = before ++ c :: after) {mid : Session α} (hmid : mid = midsweep cs before (swept cs (k - 1) st)) :
    (correctOne c).answer mid = .ok true ∧
      ∃ later, (answersOf after).answer ((correctOne c).after mid) = .ok later ∧ (∀ met ∈ later, met = true) ∧
        ((correct s).after st).assembly.node = ((answersOf after).after ((correctOne c).after mid)).assembly.node := by
  subst hcs
  obtain ⟨hcorrect, -⟩ := (runs_correct st s).at_session k hk
  obtain ⟨-, hconverges⟩ := hcorrect.mp hanswer
  have hlast : k - 1 + 1 = k := Nat.sub_add_cancel hk
  obtain ⟨answers, hsweep, -, hmet⟩ := hconverges.swept (k - 1) (by omega)
  have hnode := node_correct hk hanswer
  rw [← hlast, ← after_bareSweep, after_bareSweep_eq_midsweep] at hnode
  have hanswers : (answersOf (st.assembly.system s).constraints).answer
      ((change fun a => a.clearBoosts (a.nodesOf (st.assembly.system s).constraints)).after
        (swept (st.assembly.system s).constraints (k - 1) st)) = .ok answers := hsweep
  -- the session in the middle of the last sweep begins with the boosts cleared, as the sweep does
  unfold midsweep at hmid hnode
  generalize (change fun a => a.clearBoosts (a.nodesOf (st.assembly.system s).constraints)).after
    (swept (st.assembly.system s).constraints (k - 1) st) = cleared at hmid hnode hanswers
  rw [hsplit] at hnode hanswers
  obtain ⟨earlier, met, later, rfl, hown, hlater, hafter⟩ := answersOf_split hanswers
  rw [← hmid] at hown hlater hafter
  have hall := hmet hlast
  have htrue : met = true := hall met (by simp)
  rw [htrue] at hown
  rw [hafter] at hnode
  exact ⟨hown, later, hlater, fun met hm => hall met (by simp [hm]), hnode⟩

/-- What corrections that are met do to the vector between two nodes. -/
theorem norm_vectorTo_answersOf {st : Session ℝ} {cfg : Config ℝ} {cs after : List ConstraintId} {later : List Bool}
    (hfirm : st.assembly.Firm cs) (hafter : after ⊆ cs) (hcfg : ∀ c ∈ cs, st.assembly.configOf c = cfg)
    (htolerance : 0 < cfg.tolerance) (hlater : (answersOf after).answer st = .ok later)
    (hmet : ∀ met ∈ later, met = true) (p q : NodeId) :
    ‖((((answersOf after).after st).assembly.node p).vectorTo
        (((answersOf after).after st).assembly.node q)).toComplex -
      ((st.assembly.node p).vectorTo (st.assembly.node q)).toComplex‖ ≤
        3 * cfg.tolerance * after.countP fun c => (st.assembly.constraint c).Tugs p q := by
  have hsweeps := (runs_answersOf_ok st.assembly after).at_session later hlater
  refine hsweeps.vectorTo_sub hmet (fun d hd => hcfg d (hafter hd)) (fun d hd => ⟨htolerance, ?_, ?_⟩) p q
  · rw [← hcfg d (hafter hd)]
    exact hfirm.reach d (hafter hd)
  · exact fun n hn => (hfirm.node (hafter hd) hn).heavy

/-! ### Runs -/

/-- In exact arithmetic, with a valid configuration and positive masses: after a run that met every constraint, a pair
with an end that can move and a wanted angle is within reach, up to one tolerance, and three more for every later
registration that tugs at its nodes; and so is a pair that wants a length within reach when the last sweep reads it.  In
any case a pair is as long as it wants to be then, up to as much. -/
theorem correct_within_reach (st : Session ℝ) (hst : st.assembly.Consistent) (s : SystemId) (cfg : Config ℝ)
    (hcfg : cfg = st.assembly.config (st.assembly.system s).config) (hvalid : cfg.Valid)
    (hmass : ∀ n ∈ (st.assembly.system s).nodes, (st.assembly.node n).base = false → 0 < (st.assembly.node n).mass)
    (k : Nat) (hk : 1 ≤ k) (hanswer : (correct s).answer st = .ok k) (cs before after : List ConstraintId)
    (i : ConstraintId) (hcs : cs = (st.assembly.system s).constraints) (hsplit : cs = before ++ i :: after)
    (first second : NodeId) (direction : Direction)
    (hshape : (st.assembly.constraint i).shape = .pair first second direction)
    (hfree : (st.assembly.node first).base = false ∨ (st.assembly.node second).base = false) (v : Vec ℝ)
    (hv : v = (((correct s).after st).assembly.node first).vectorTo (((correct s).after st).assembly.node second))
    (turned : Session ℝ) (hturned : turned = (turnOne i).after (midsweep cs before (swept cs (k - 1) st))) :
    (((st.assembly.constraint i).angleTarget.isSome ∨
        ∃ x, x ≤ cfg.reach ∧ (targetLength i).answer turned = .ok (some x)) →
      v.length < cfg.reach +
        cfg.tolerance * (1 + 3 * after.countP fun c => (st.assembly.constraint c).Tugs first second)) ∧
    ∀ x, (targetLength i).answer turned = .ok (some x) → |v.length - x| <
      cfg.tolerance * (1 + 3 * after.countP fun c => (st.assembly.constraint c).Tugs first second) := by
  have hmem : i ∈ cs := by simp [hsplit]
  have hbefore : before ⊆ cs := by simp [hsplit]
  have hafter : after ⊆ cs := by
    rw [hsplit]
    exact fun d hd => List.mem_append_right before (List.mem_cons_of_mem i hd)
  have hconfig : ∀ c ∈ cs, st.assembly.configOf c = cfg := fun c hc => by
    rw [hcfg]
    exact hst.configOf (by rwa [← hcs])
  have hmassive : st.assembly.Massive cs := by
    rw [hcs]
    exact hst.massive (by rwa [← hcfg]) hmass
  obtain ⟨-, htolerance, -⟩ := hvalid
  -- the session in which the last sweep corrects the pair, and the one that the correction leaves
  set mid := midsweep cs before (swept cs (k - 1) st) with hmid
  have hdesign : SameDesign st.assembly mid.assembly := sameDesign_midsweep st hbefore (k - 1)
  have hfirm : mid.assembly.Firm cs := firm_midsweep (massive_swept hmassive (k - 1)) hbefore
  obtain ⟨hown, later, hlater, hmet, hnode⟩ := correct_last hk hanswer hcs hsplit hmid
  have htended := (keeps_correctOne hmem mid.assembly).at_session
  have hdesign' := hdesign.trans htended.toSameDesign
  have hchange := norm_vectorTo_answersOf (hfirm.tended htended) hafter
    (fun c hc => (hdesign'.samePlan.configOf c).trans (hconfig c hc)) htolerance hlater hmet first second
  simp only [hdesign'.constraint] at hchange
  rw [← hnode, ← hv] at hchange
  -- both halves of the correction
  have hshape' : (mid.assembly.constraint i).shape = .pair first second direction := by rw [hdesign.constraint, hshape]
  obtain ⟨hturn, hstretch, hhalves⟩ := correctOne_met hshape' hown
  have hturnDesign := (keeps_turnOne hmem mid.assembly).at_session.toSameDesign
  have hshapeTurned : (turned.assembly.constraint i).shape = .pair first second direction := by
    rw [hturned, hturnDesign.constraint, hshape']
  rw [← hturned] at hstretch hhalves
  obtain ⟨hstill, hnear⟩ := stretchOne_met hshapeTurned hstretch
  rw [hhalves, hstill] at hchange
  have hnorm := abs_norm_sub_norm_le v.toComplex
    ((turned.assembly.node first).vectorTo (turned.assembly.node second)).toComplex
  rw [← Vec.length_eq_norm, ← Vec.length_eq_norm] at hnorm
  have hwanted : ∀ x, (targetLength i).answer turned = .ok (some x) → |v.length - x| <
      cfg.tolerance * (1 + 3 * after.countP fun c => (st.assembly.constraint c).Tugs first second) := by
    intro x hx
    have hnear : |x - ((turned.assembly.node first).vectorTo (turned.assembly.node second)).length| <
        (turned.assembly.configOf i).tolerance := hnear x hx
    rw [hturned, hturnDesign.samePlan.configOf, hdesign.samePlan.configOf, hconfig i hmem, ← hturned,
      abs_sub_comm] at hnear
    have htriangle := abs_sub_le v.length
      ((turned.assembly.node first).vectorTo (turned.assembly.node second)).length x
    linarith
  refine ⟨fun hclamped => ?_, hwanted⟩
  rcases hclamped with hangle | ⟨x, hx, hread⟩
  · have hbody (n : NodeId) : (mid.assembly.node n).base = (st.assembly.node n).base :=
      ((worked_swept cs (k - 1) st n).trans (worked_midsweep _ hbefore n)).body.2.1
    have hlength := length_turnOne_le hfirm hmem hshape' (by rwa [hdesign.constraint]) (by rwa [hbody, hbody]) hturn
    rw [← hturned, hdesign.samePlan.configOf, hconfig i hmem] at hlength
    have hless := (abs_le.mp hnorm).2
    linarith
  · have hless := (abs_lt.mp (hwanted x hread)).2
    linarith

/-- The level of the slanted system is within reach of its configuration. -/
theorem correct_within_reach_slanted : (correct 0).answer slantedSession = .ok 1 ∧
    ((((correct 0).after slantedSession).assembly.node 1).vectorTo
      (((correct 0).after slantedSession).assembly.node 2)).length < 1000000 + 1 * (1 + 3 * (0 : Nat)) := by
  have hconsistent : slantedSession.assembly.Consistent := consistent_run (Assembly.consistent_empty _) _
  have hvalid : (⟨.int 256, 1, 1000000⟩ : Config ℝ).Valid := ⟨by decide, zero_lt_one, by norm_num⟩
  have hmass : ∀ n ∈ (slantedSession.assembly.system 0).nodes,
      (slantedSession.assembly.node n).base = false → 0 < (slantedSession.assembly.node n).mass := by
    intro n hn _
    obtain rfl | rfl | rfl : n = 0 ∨ n = 1 ∨ n = 2 := by
      change n ∈ [0, 1, 2] at hn
      simpa using hn
    · exact zero_lt_one
    · exact zero_lt_one
    · exact zero_lt_one
  have hbound := correct_within_reach slantedSession hconsistent 0 ⟨.int 256, 1, 1000000⟩ rfl hvalid hmass 1
    (Nat.le_refl 1) slanted_correct.1 [0, 1] [0] [] 1 rfl rfl 1 2 .either rfl (Or.inl rfl) _ rfl _ rfl
  exact ⟨slanted_correct.1, hbound.1 (Or.inl rfl)⟩

/-- A bar three times as long as the reach, which wants to be so. -/
noncomputable def tallBar : Session ℝ :=
  run [.newConfig ⟨.int 256, 1, 1⟩, .newSystem (some 0), .node 0 0 0 { base := some true, mass := some none },
    .node 0 0 (1 + 1 + 1) { mass := some none }, .pair 0 0 1 { length := some (.number (.float (1 + 1 + 1))) }]
    ⟨.empty ⟨.int 256, 1, 1⟩, .empty Level.warning⟩

theorem tallBar_sweep : Runs (bareSweep [0]) tallBar.assembly fun r b => r = .ok [true] ∧
    b.node 0 = ⟨0, 0, true, 1, none, 0⟩ ∧ b.node 1 = ⟨0, 1 + 1 + 1, false, 1, none, 0⟩ := by
  have hpass : lengthPass ⟨.int 256, 1, 1⟩ (1 + 1 + 1 : ℝ)
      ⟨⟨0, 0, true, 1, none, 0⟩, ⟨0, 1 + 1 + 1, false, 1, none, 0⟩⟩ =
        .ok true ⟨⟨0, 0, true, 1, none, 0⟩, ⟨0, 1 + 1 + 1, false, 1, none, 0⟩⟩ := by
    refine lengthPass_of_near ?_
    change |1 + 1 + 1 - (⟨0 - 0, 1 + 1 + 1 - 0⟩ : Vec ℝ).length| < 1
    rw [Vec.length_upright (by norm_num), sub_self, abs_zero]
    exact zero_lt_one
  refine runs_after_change (runs_bind (Runs.mono (runs_correctOne_length rfl rfl rfl hpass) ?_))
  rintro _ b ⟨rfl, hb⟩
  rw [then_ok]
  exact runs_bind_pure (runs_pure ⟨rfl, by rw [hb]; rfl, by rw [hb]; rfl⟩)

/-- A pair that has no wanted angle is met with the length that it wants, however far that is out of reach. -/
theorem reach_exceeded :
    (tallBar.assembly.config (tallBar.assembly.system 0).config).Valid ∧
    (∀ n ∈ (tallBar.assembly.system 0).nodes, 0 < (tallBar.assembly.node n).mass) ∧
    (tallBar.assembly.system 0).constraints = [0] ∧
    (tallBar.assembly.constraint 0).shape = .pair 0 1 .either ∧ (tallBar.assembly.node 1).base = false ∧
    (tallBar.assembly.constraint 0).lengthTarget.isSome ∧ (correct 0).answer tallBar = .ok 1 ∧
    ¬((((correct 0).after tallBar).assembly.node 0).vectorTo (((correct 0).after tallBar).assembly.node 1)).length <
      (tallBar.assembly.config (tallBar.assembly.system 0).config).reach +
        (tallBar.assembly.config (tallBar.assembly.system 0).config).tolerance * (1 + 3 * (0 : Nat)) := by
  have hvalid : (⟨.int 256, 1, 1⟩ : Config ℝ).Valid := ⟨by decide, zero_lt_one, zero_lt_one⟩
  have hmass : ∀ n ∈ (tallBar.assembly.system 0).nodes, 0 < (tallBar.assembly.node n).mass := by
    intro n hn
    obtain rfl | rfl : n = 0 ∨ n = 1 := by
      change n ∈ [0, 1] at hn
      simpa using hn
    · exact zero_lt_one
    · exact zero_lt_one
  obtain ⟨hanswers, hfoot, htop⟩ := tallBar_sweep.at_session
  have hconverges : Converges 0 [0] 1 tallBar :=
    converges_succ.mpr ⟨[true], hanswers, Assembly.isFinite_real _ 0, by simp⟩
  have hcorrect := ((runs_correct tallBar 0).at_session 1 (Nat.le_refl 1)).1.mpr ⟨hvalid.1, hconverges⟩
  have hnode : ((correct 0).after tallBar).assembly.node = ((bareSweep [0]).after tallBar).assembly.node :=
    node_correct (Nat.le_refl 1) hcorrect
  refine ⟨hvalid, hmass, rfl, rfl, rfl, rfl, hcorrect, ?_⟩
  rw [hnode, hfoot, htop]
  change ¬(⟨0 - 0, 1 + 1 + 1 - 0⟩ : Vec ℝ).length < 1 + 1 * (1 + 3 * (0 : Nat))
  rw [Vec.length_upright (by norm_num)]
  norm_num

end Act

end Linkage
