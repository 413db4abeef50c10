import Linkage.Proofs.Bars
import Linkage.Proofs.Driving

/-!
# Linkage.Proofs.Cranks — one sweep of a mechanism that a crank drives

Both ready-made mechanisms have a crank of length ten, a coupler from its pin to a joint, and guides that keep the joint
on its way.  A sweep projects the crank onto the drive line and stretches it along that line (`runs_driver`), so its pin
is ten away from the hub, on the side of the line where it was.  The coupler then moves the pin by less than that
(`runs_coupler`), because the joint never gets so far from where it should be, and a pin cannot change sides by moves
that small.  Where the joint may be is a set that sweeps do not lead out of; what has to be known of it is
collected in `Clearance`, and what of the guides in `Gear.Built`.
-/

namespace Linkage

/-- The parts of a mechanism that a crank drives: the crank turns about the hub and carries the pin, the coupler leads
from the pin to the joint, and the guides keep the joint on its way. -/
structure Gear where
  system : SystemId
  hub : NodeId
  pin : NodeId
  joint : NodeId
  driver : ConstraintId
  coupler : ConstraintId
  guides : List ConstraintId

namespace Gear

def constraints (g : Gear) : List ConstraintId := g.driver :: g.coupler :: g.guides

/-- For a crank of length ten: where the joint may be between sweeps (`zone`), and where a coupler that pulls it from
there may leave it to the guides (`wide`).  The joint does not come near the pin, and a coupler never misses its length
by so much that a third of it would carry the pin back to the hub. -/
structure Clearance (coupler : ℝ) (zone wide : Set ℂ) : Prop where
  apart : ∀ P B : ℂ, |10 - ‖P‖| ≤ 1 / 10 → B ∈ zone → 1 < ‖B - P‖
  slack : ∀ P B : ℂ, |10 - ‖P‖| ≤ 1 / 10 → B ∈ zone → |coupler - ‖B - P‖| ≤ 276 / 10
  pulled : ∀ P B u : ℂ, |10 - ‖P‖| ≤ 1 / 10 → B ∈ zone → ‖u‖ = 1 → ‖B - P‖ * u = B - P →
    ∀ part : ℝ, 2 / 3 ≤ part → part ≤ 3 / 4 → B + (part * (coupler - ‖B - P‖) : ℝ) * u ∈ wide
  rest : zone ⊆ wide

/-- A configuration that lets the crank and its neighbours be where they belong, and tells when they are not. -/
structure Tuned (cfg : Config ℝ) : Prop where
  cap : 1 ≤ cfg.cap
  tolerance : cfg.tolerance ≤ 1 / 10
  reach : 100 ≤ cfg.reach

/-- The gear as it is built in an assembly: what its constraints are and where its hub is, and that its guides bring the
joint back where it may be. -/
structure Built (g : Gear) (cfg : Config ℝ) (coupler : ℝ) (zone wide : Set ℂ) (a : Assembly ℝ) : Prop where
  constraints : (a.system g.system).constraints = g.constraints
  config : a.config (a.system g.system).config = cfg
  tuned : Tuned cfg
  coherent : ∃ made, Assembly.Coherent made a
  driverShape : (a.constraint g.driver).shape = .pair g.hub g.pin .either
  driverLength : (a.constraint g.driver).lengthTarget = some (.fixed 10)
  couplerShape : (a.constraint g.coupler).shape = .pair g.pin g.joint .either
  couplerLength : (a.constraint g.coupler).lengthTarget = some (.fixed coupler)
  couplerAngle : (a.constraint g.coupler).angleTarget = none
  other : g.coupler ≠ g.driver
  hub : (a.node g.hub).Pinned 0
  pin : (a.node g.pin).base = false ∧ (a.node g.pin).mass = 1
  joint : (a.node g.joint).base = false ∧ (a.node g.joint).mass = 1
  distinct : g.pin ≠ g.joint
  guided : ∀ b, Assembly.Driven g.driver a b → ∀ B n, (b.node g.joint).Loose B n → 0 < n → B ∈ wide →
    Act.Runs (Act.answersOf g.guides) b fun _ b' => (b'.node g.joint).place ∈ zone ∧ b'.node g.pin = b.node g.pin

/-- Where the pin and the joint are between sweeps. -/
structure Posed (g : Gear) (zone : Set ℂ) (a : Assembly ℝ) : Prop where
  pin : ‖(a.node g.pin).place‖ ≤ 20
  joint : (a.node g.joint).place ∈ zone

end Gear

theorem epsilon_lt_hundredth : (Scalar.epsilon : ℝ) < 1 / 100 := by
  change (((2 ^ 52 : ℕ) : ℝ)⁻¹) < 1 / 100
  norm_num

/-- A pin that lies ahead along the drive line lies ahead afterwards, and one that lies behind lies behind. -/
structure KeepsSide (phi : ℝ) (A A' : ℂ) : Prop where
  ahead : Scalar.epsilon < advance A phi → Scalar.epsilon < advance A' phi
  behind : advance A phi < -Scalar.epsilon → advance A' phi < -Scalar.epsilon

theorem keepsSide_refl (phi : ℝ) (A : ℂ) : KeepsSide phi A A := ⟨fun h => h, fun h => h⟩

theorem KeepsSide.trans {phi : ℝ} {A A' A'' : ℂ} (h : KeepsSide phi A A') (h' : KeepsSide phi A' A'') :
    KeepsSide phi A A'' :=
  ⟨fun hA => h'.ahead (h.ahead hA), fun hA => h'.behind (h.behind hA)⟩

/-! ### The driver -/

/-- Where the driver leaves the pin: about ten from the hub, and on the drive line, on the side where it was, unless it
was on neither. -/
structure Drawn (phi : ℝ) (A P : ℂ) : Prop where
  length : |10 - ‖P‖| ≤ 1 / 10
  side : Scalar.epsilon < |advance A phi| → ∃ t : ℝ, P = t * bearing phi ∧ 0 < advance A phi * t

/-- A pin that is projected onto the drive line and is ten from the hub, up to the tolerance. -/
theorem drawn_of_near {phi : ℝ} {A : ℂ} (hnear : |10 - ‖(advance A phi : ℂ) * bearing phi‖| ≤ 1 / 10) :
    Drawn phi A (advance A phi * bearing phi) := by
  refine ⟨hnear, fun hA => ⟨advance A phi, rfl, mul_self_pos.mpr fun hzero => ?_⟩⟩
  rw [hzero, abs_zero] at hA
  exact lt_asymm hA (Scalar.Signs.epsilon_pos (α := ℝ))

/-- A pin that is projected onto the drive line and then stretched. -/
theorem drawn_of_stretched {phi : ℝ} {A u : ℂ} (hunit : ‖u‖ = 1)
    (hscaled : Scalar.epsilon < ‖(advance A phi : ℂ) * bearing phi‖ →
      ‖(advance A phi : ℂ) * bearing phi‖ * u = advance A phi * bearing phi) :
    Drawn phi A (advance A phi * bearing phi + (10 - ‖(advance A phi : ℂ) * bearing phi‖ : ℝ) * u) := by
  set s := advance A phi with hs
  have hnorm : ‖(s : ℂ) * bearing phi‖ = |s| := by
    rw [norm_mul_bearing]
  rw [hnorm] at hscaled ⊢
  -- unless the projection is almost nothing, stretching goes on in its own direction
  by_cases hA : Scalar.epsilon < |s|
  · have hpos : 0 < |s| := (Scalar.Signs.epsilon_pos (α := ℝ)).trans hA
    have hten : (s : ℂ) * bearing phi + (10 - |s| : ℝ) * u = 10 * u := by
      rw [← hscaled hA]
      push_cast
      ring
    rw [hten]
    refine ⟨?_, fun _ => ⟨10 * s / |s|, ?_, ?_⟩⟩
    · rw [norm_mul, hunit, mul_one]
      norm_num
    · have hne : ((|s| : ℝ) : ℂ) ≠ 0 := Complex.ofReal_ne_zero.mpr hpos.ne'
      push_cast
      field_simp
      rw [← hscaled hA, mul_comm]
    · have hproduct : s * (10 * s / |s|) = 10 * |s| := by
        rw [← mul_div_assoc, mul_left_comm, ← abs_mul_abs_self s]
        field_simp
      rw [hproduct]
      linarith
  · refine ⟨?_, fun h => absurd h hA⟩
    have hsmall : |s| < 1 / 100 := (not_lt.mp hA).trans_lt epsilon_lt_hundredth
    have hrest : ‖((10 - |s| : ℝ) : ℂ) * u‖ = 10 - |s| := by
      rw [norm_mul, hunit, mul_one, Complex.norm_real, Real.norm_of_nonneg (by linarith)]
    have hupper := norm_add_le ((s : ℂ) * bearing phi) (((10 - |s| : ℝ) : ℂ) * u)
    have hlower := norm_sub_le_norm_add (((10 - |s| : ℝ) : ℂ) * u) ((s : ℂ) * bearing phi)
    rw [add_comm (((10 - |s| : ℝ) : ℂ) * u)] at hlower
    rw [hrest, hnorm] at hupper hlower
    exact abs_le.mpr ⟨by linarith, by linarith⟩

/-- A pin that the driver drew, once the coupler has moved it a little, is on the side where it was. -/
theorem Drawn.keepsSide {phi : ℝ} {A P A' : ℂ} (h : Drawn phi A P) (hmove : ‖P - A'‖ ≤ 92 / 10) :
    KeepsSide phi A A' := by
  have hepsilon := epsilon_lt_hundredth
  have hchange := abs_le.mp ((abs_advance_le (P - A') phi).trans hmove)
  rw [advance_sub] at hchange
  -- once drawn, the pin is 9.9 from the hub along the drive line at least, and the coupler moves it 9.2 at most
  have hdrawn (hA : Scalar.epsilon < |advance A phi|) : 99 / 10 ≤ |advance P phi| ∧ 0 < advance A phi * advance P phi := by
    obtain ⟨t, rfl, hside⟩ := h.side hA
    have hlength := (abs_le.mp h.length).2
    rw [norm_mul_bearing] at hlength
    rw [advance_mul_bearing, sub_self, Real.cos_zero, mul_one]
    exact ⟨by linarith, hside⟩
  constructor
  · intro hA
    have hpos : 0 < advance A phi := (Scalar.Signs.epsilon_pos (α := ℝ)).trans hA
    obtain ⟨hfar, hside⟩ := hdrawn (by rwa [abs_of_pos hpos])
    rw [abs_of_pos ((pos_iff_pos_of_mul_pos hside).mp hpos)] at hfar
    linarith
  · intro hA
    have hneg : advance A phi < 0 := hA.trans (neg_lt_zero.mpr (Scalar.Signs.epsilon_pos (α := ℝ)))
    obtain ⟨hfar, hside⟩ := hdrawn (by rw [abs_of_neg hneg]; linarith)
    rw [abs_of_neg ((neg_iff_neg_of_mul_pos hside).mp hneg)] at hfar
    linarith

/-- Both passes of the driver, one after the other. -/
theorem exists_drawn {cfg : Config ℝ} (hcfg : Gear.Tuned cfg) (phi : ℝ) {e : Ends ℝ} {A : ℂ} (hhub : e.first.Pinned 0)
    (hpin : e.second.Loose A 1) (hA : ‖A‖ ≤ 20) : ∃ angleMet e' lengthMet e'' P m,
      anglePass cfg .either phi e = .ok angleMet e' ∧ lengthPass cfg 10 e' = .ok lengthMet e'' ∧ e''.first = e.first ∧
        e''.second.Loose P m ∧ 2 ≤ m ∧ m ≤ 3 ∧ Drawn phi A P ∧ (lengthMet = true → ∃ t : ℝ, P = t * bearing phi) := by
  obtain ⟨angleMet, e', hturn, hkept, hturned⟩ := anglePass_pinned cfg hhub
    (show e.second.Loose (0 + A) 1 by rwa [zero_add]) one_pos (Or.inl rfl)
    (((abs_advance_le A phi).trans hA).trans (by linarith [hcfg.reach]))
  rcases lengthPass_pinned cfg (hkept ▸ hhub) hturned (by norm_num) 10 with
    ⟨hstretch, hnear⟩ | ⟨u, e'', hstretch, hkept', hunit, hscaled, hstretched⟩
  · rw [zero_add] at hturned
    exact ⟨angleMet, e', true, e', _, 1 + 1, hturn, hstretch, hkept, hturned, by norm_num, by norm_num,
      drawn_of_near (hnear.le.trans hcfg.tolerance), fun _ => ⟨_, rfl⟩⟩
  · rw [zero_add] at hstretched
    exact ⟨angleMet, e', false, e'', _, 1 + 1 + 1, hturn, hstretch, hkept'.trans hkept, hstretched, by norm_num, by norm_num,
      drawn_of_stretched hunit hscaled, fun hmet => (nomatch hmet)⟩

/-! ### The coupler -/

/-- The pass of the coupler: the pin has a third of the correction at most, and the joint the rest. -/
theorem exists_pulled {coupler : ℝ} {zone wide : Set ℂ} (hclear : Gear.Clearance coupler zone wide) (cfg : Config ℝ)
    {e : Ends ℝ} {P B : ℂ} {m : ℝ} (hpin : e.first.Loose P m) (hm : 2 ≤ m) (hm' : m ≤ 3)
    (hP : |10 - ‖P‖| ≤ 1 / 10) (hjoint : e.second.Loose B 1) (hB : B ∈ zone) :
    ∃ met e' B' n, lengthPass cfg coupler e = .ok met e' ∧ ‖P - e'.first.place‖ ≤ 92 / 10 ∧
      (met = true → e'.first.place = P) ∧ e'.second.Loose B' n ∧ 0 < n ∧ B' ∈ wide := by
  have hapart := hclear.apart P B hP hB
  rcases lengthPass_loose cfg hpin hjoint (by linarith) one_pos coupler with
    ⟨hstretch, -⟩ | ⟨u, e', hstretch, hunit, hscaled, hpin', hjoint'⟩
  · refine ⟨true, e, B, 1, hstretch, ?_, fun _ => hpin.place, hjoint, one_pos, hclear.rest hB⟩
    rw [hpin.place, sub_self, norm_zero]
    norm_num
  -- the pin weighs two to three times what the joint does, which bounds their parts of the correction
  · have hless : 2 / 3 ≤ m / (m + 1) := by
      rw [div_le_div_iff₀ (by norm_num) (by linarith)]
      linarith
    have hmore : m / (m + 1) ≤ 3 / 4 := by
      rw [div_le_div_iff₀ (by linarith) (by norm_num)]
      linarith
    have hpart : 1 / (m + 1) ≤ 1 / 3 := by
      rw [div_le_div_iff₀ (by linarith) (by norm_num)]
      linarith
    refine ⟨false, e', _, _, hstretch, ?_, fun hmet => (nomatch hmet), hjoint', by norm_num,
      hclear.pulled P B u hP hB hunit (hscaled (epsilon_lt_hundredth.trans (by linarith))) _ hless hmore⟩
    rw [hpin'.place, sub_sub_cancel, norm_mul, hunit, mul_one, Complex.norm_real, Real.norm_eq_abs, abs_mul,
      abs_of_pos (by positivity)]
    calc 1 / (m + 1) * |coupler - ‖B - P‖| ≤ 1 / 3 * (276 / 10) :=
          mul_le_mul hpart (hclear.slack P B hP hB) (abs_nonneg _) (by norm_num)
      _ = 92 / 10 := by norm_num

/-! ### Corrections of the gear -/

/-- A correction that does not fail, and then others. -/
theorem Act.runs_answersOf_cons {c : ConstraintId} {rest : List ConstraintId} {a : Assembly ℝ} {Q : Assembly ℝ → Prop}
    (h : Runs (correctOne c) a fun r b => ∃ met, r = .ok met ∧ Runs (answersOf rest) b fun _ b' => Q b') :
    Runs (answersOf (c :: rest)) a fun _ b => Q b := by
  refine runs_bind (h.mono ?_)
  rintro _ b ⟨met, rfl, hrest⟩
  rw [then_ok]
  exact runs_bind_pure hrest

namespace Gear.Built

open Act
open Assembly (Driven)

variable {g : Gear} {cfg : Config ℝ} {coupler phi : ℝ} {zone wide : Set ℂ} {a₀ a : Assembly ℝ}

theorem configOf (h : g.Built cfg coupler zone wide a₀) (hab : Driven g.driver a₀ a) {c : ConstraintId}
    (hc : c ∈ g.constraints) : a.configOf c = cfg := by
  obtain ⟨made, hmade⟩ := h.coherent
  rw [hab.configOf, hmade.consistent.configOf (s := g.system) (by rwa [h.constraints]), h.config]

/-- The driver moves the pin alone. -/
theorem runs_driver (h : g.Built cfg coupler zone wide a₀) (hab : Driven g.driver a₀ a)
    (hdrive : (a.constraint g.driver).angleTarget = some (.fixed phi)) {A : ℂ} (hpin : (a.node g.pin).Loose A 1)
    (hA : ‖A‖ ≤ 20) : Runs (correctOne g.driver) a fun r b => ∃ met P m, r = .ok met ∧ (b.node g.pin).Loose P m ∧
      2 ≤ m ∧ m ≤ 3 ∧ Drawn phi A P ∧ (met = true → ∃ t : ℝ, P = t * bearing phi) ∧
      ∀ n ≠ g.pin, b.node n = a.node n := by
  obtain ⟨made, hmade⟩ := h.coherent
  have hhub : (a.node g.hub).Pinned 0 := by
    rw [hab.base _ h.hub.base]
    exact h.hub
  have hne : g.hub ≠ g.pin := hhub.ne_of_loose hpin
  have hwanted : a.wanted g.driver (a.constraint g.driver).angleTarget = .ok (some phi) := by
    rw [hdrive]
    rfl
  have hlength : (a.constraint g.driver).lengthTarget = (some (10 : ℝ)).map .fixed := by
    rw [hab.lengthTarget, h.driverLength]
    rfl
  obtain ⟨angleMet, e, lengthMet, e', P, m, hturn, hstretch, hkept, hpin', hm, hm', hdrawn, hmet⟩ :=
    exists_drawn h.tuned phi (e := ⟨a.node g.hub, a.node g.pin⟩) hhub hpin hA
  rw [← h.configOf hab List.mem_cons_self] at hturn hstretch
  refine (runs_correctOne_pair (hab.coherent made hmade) (by rw [hab.shape, h.driverShape]) hne hwanted hlength
    hturn hstretch).mono ?_
  rintro _ b ⟨rfl, hnode⟩
  refine ⟨_, P, m, rfl, ?_, hm, hm', hdrawn, fun h => hmet ((Bool.and_eq_true ..).mp h).1, fun n hn => ?_⟩
  · rw [hnode]
    rwa [Ends.put_second]
  · rw [hnode]
    unfold Ends.put
    rw [if_neg hn.symm]
    split
    case isTrue hn => rw [hkept, hn]
    case isFalse => rfl

/-- The coupler moves the pin a little, and the joint to where the guides take it over. -/
theorem runs_coupler (h : g.Built cfg coupler zone wide a₀) (hclear : Clearance coupler zone wide)
    (hab : Driven g.driver a₀ a) {P B : ℂ} {m : ℝ} (hpin : (a.node g.pin).Loose P m) (hm : 2 ≤ m) (hm' : m ≤ 3)
    (hP : |10 - ‖P‖| ≤ 1 / 10) (hjoint : (a.node g.joint).Loose B 1) (hB : B ∈ zone) :
    Runs (correctOne g.coupler) a fun r b => ∃ met B' n, r = .ok met ∧ ‖P - (b.node g.pin).place‖ ≤ 92 / 10 ∧
      (met = true → (b.node g.pin).place = P) ∧ (b.node g.joint).Loose B' n ∧ 0 < n ∧ B' ∈ wide := by
  obtain ⟨made, hmade⟩ := h.coherent
  have hfree : a.wanted g.coupler (a.constraint g.coupler).angleTarget = .ok none := by
    rw [hab.angleTarget _ h.other, h.couplerAngle]
    rfl
  have hlength : (a.constraint g.coupler).lengthTarget = (some coupler).map .fixed := by
    rw [hab.lengthTarget, h.couplerLength]
    rfl
  obtain ⟨met, e, B', n, hstretch, hmove, hmet, hjoint', hn, hB'⟩ := exists_pulled hclear (a.configOf g.coupler)
    (e := ⟨a.node g.pin, a.node g.joint⟩) hpin hm hm' hP hjoint hB
  refine (runs_correctOne_pair (hab.coherent made hmade) (by rw [hab.shape, h.couplerShape]) h.distinct hfree hlength
    rfl hstretch).mono ?_
  rintro _ b ⟨rfl, hnode⟩
  have hpinned : b.node g.pin = e.first := by
    rw [hnode, Ends.put_first h.distinct]
  have hjointed : b.node g.joint = e.second := by
    rw [hnode, Ends.put_second]
  rw [hpinned, hjointed, Bool.and_true]
  exact ⟨met, B', n, rfl, hmove, hmet, hjoint', hn, hB'⟩

/-- Once its boost is cleared, a free node of the gear has its own mass. -/
theorem loose_clearBoost {v : Node ℝ} (hfree : v.base = false) (hmass : v.mass = 1) : v.clearBoost.Loose v.place 1 := by
  have hclear : v.clearBoost = { v with boost := 0 } := if_neg (by simp [hfree])
  rw [hclear]
  exact ⟨hfree, rfl, by change v.mass + 0 = 1; rw [hmass, add_zero]⟩

/-- A sweep in which the driver has the angle `phi` leaves pin and joint where they may be and the pin on its side, and
on the drive line if every constraint was met. -/
theorem runs_bareSweep (h : g.Built cfg coupler zone wide a₀) (hclear : Clearance coupler zone wide)
    (hab : Driven g.driver a₀ a) (hdrive : (a.constraint g.driver).angleTarget = some (.fixed phi))
    (hposed : g.Posed zone a) : Runs (bareSweep g.constraints) a fun r b => g.Posed zone b ∧
      KeepsSide phi (a.node g.pin).place (b.node g.pin).place ∧
      ∀ answers, r = .ok answers → (∀ met ∈ answers, met = true) →
        ∃ t : ℝ, (b.node g.pin).place = t * bearing phi ∧ |10 - (|t|)| ≤ 1 / 10 := by
  refine runs_after_change ?_
  set a' := a.clearBoosts (a.nodesOf g.constraints) with ha'
  have hab' : Driven g.driver a₀ a' := trans_of _ hab (driven_clearBoosts a _)
  have hmem {c : ConstraintId} (hc : c ∈ g.constraints) {n : NodeId} (hn : n ∈ (a₀.constraint c).shape.nodes) :
      n ∈ a.nodesOf g.constraints := by
    rw [hab.nodesOf]
    exact List.mem_flatMap.mpr ⟨c, hc, hn⟩
  have hdriver : g.driver ∈ g.constraints := List.mem_cons_self
  have hcoupler : g.coupler ∈ g.constraints := List.mem_cons_of_mem _ List.mem_cons_self
  have hpinned : g.pin ∈ (a₀.constraint g.driver).shape.nodes := by
    rw [h.driverShape]
    exact List.mem_cons_of_mem _ List.mem_cons_self
  have hjointed : g.joint ∈ (a₀.constraint g.coupler).shape.nodes := by
    rw [h.couplerShape]
    exact List.mem_cons_of_mem _ List.mem_cons_self
  -- with the boosts cleared, pin and joint weigh one each, whatever the sweeps before have counted
  have hpin : (a'.node g.pin).Loose (a.node g.pin).place 1 := by
    rw [ha', Assembly.node_clearBoosts, if_pos (hmem hdriver hpinned)]
    exact loose_clearBoost (hab.free _ h.pin.1) ((hab.mass _).trans h.pin.2)
  have hjoint : (a'.node g.joint).Loose (a.node g.joint).place 1 := by
    rw [ha', Assembly.node_clearBoosts, if_pos (hmem hcoupler hjointed)]
    exact loose_clearBoost (hab.free _ h.joint.1) ((hab.mass _).trans h.joint.2)
  have hdrive' : (a'.constraint g.driver).angleTarget = some (.fixed phi) := by
    rwa [(Assembly.corrected_clearBoosts (List.Subset.refl _) a).toSameDesign.constraint]
  -- first the driver: it moves the pin alone
  refine runs_bind (((h.runs_driver hab' hdrive' hpin hposed.pin).and (driven_correctOne g.driver g.driver a')).mono ?_)
  rintro _ b ⟨⟨met, P, m, rfl, hpin, hm, hm', hdrawn, hmet, hrest⟩, hdriven⟩
  have hab := trans_of _ hab' hdriven
  rw [then_ok]
  rw [← hrest g.joint h.distinct.symm] at hjoint
  -- then the coupler, with the pin heavier by what the driver has counted
  refine runs_bind_pure (runs_bind (((h.runs_coupler hclear hab hpin hm hm' hdrawn.length hjoint hposed.joint).and
    (driven_correctOne g.driver g.coupler b)).mono ?_))
  rintro _ c ⟨⟨met', B, n, rfl, hmove, hmet', hjoint, hn, hB⟩, hdriven⟩
  rw [then_ok]
  -- then the guides of the joint, which leave the pin alone
  refine runs_bind_pure ((h.guided c (trans_of _ hab hdriven) B n hjoint hn hB).mono fun r d ⟨hzone, hpin⟩ => ?_)
  rw [← hpin] at hmove hmet'
  refine ⟨⟨?_, hzone⟩, hdrawn.keepsSide hmove, fun answers hanswers hall => ?_⟩
  · have hlength := (abs_le.mp hdrawn.length).1
    have hnorm := norm_le_norm_add_norm_sub' (d.node g.pin).place P
    rw [norm_sub_rev] at hnorm
    linarith
  · cases r with
    | error fault => exact nomatch hanswers
    | ok later =>
      cases hanswers
      obtain ⟨hfirst, hall⟩ := List.forall_mem_cons.mp hall
      obtain ⟨hsecond, -⟩ := List.forall_mem_cons.mp hall
      -- if all were met, the coupler has moved nothing, and the pin is where the driver put it
      obtain ⟨t, ht⟩ := hmet hfirst
      have hlength := hdrawn.length
      rw [ht, norm_mul_bearing] at hlength
      exact ⟨t, (hmet' hsecond).trans ht, hlength⟩

end Gear.Built

end Linkage
