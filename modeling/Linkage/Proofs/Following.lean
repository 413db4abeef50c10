import Linkage.Proofs.FourBars
import Linkage.Proofs.Settled
import Linkage.Proofs.Sliders
import Linkage.Proofs.Turning

/-!
# Linkage.Proofs.Following — whether the crank follows the drive

The driver of a ready-made mechanism wants an angle and takes either side of the hub.  So a sweep keeps the crank on its
side, as seen along the drive, where a step turns the drive by less than a quarter turn from the last step that was met,
and leaves it behind the hub where a step turns the drive by more (`crank_follows`).  A single half turn is met at once
with the crank where it was (`crank_opposed`).
-/

namespace Linkage

open Act
open Assembly (Coherent Draft Driven)
open Mechanism (FourBar Gentle Sided SliderCrank fourBar sliderCrank)

variable {made : List Reference}

/-! ### A single step that ends on the x-axis -/

section Straight

variable {g : Gear} {slider : ConstraintId} {cfg : Config ℝ} {a b : Assembly ℝ} {phi : ℝ}

theorem offset_of_straight {z : ℂ} (him : z.im = 0) (hsin : Real.sin phi = 0) : offset z phi = 0 := by
  unfold offset
  rw [him, hsin, mul_zero, zero_mul, add_zero]

theorem norm_level_le {x r : ℝ} (hx : 0 ≤ x) (h : x ≤ r) : ‖(x : ℂ)‖ ≤ r := by rwa [Complex.norm_of_nonneg hx]

theorem Node.heavy_create (x y : ℝ) (base : Bool) (name : Option String) : (Node.create x y base (some 1) name).Heavy := by
  refine Or.inr ⟨?_, le_refl 0⟩
  rw [mass_create]
  exact one_pos

theorem place_pin_start {l : SliderCrank ℝ} (h : l.Drafted g slider cfg made a) :
    (a.node g.pin).place - (a.node g.hub).place = l.crank := by
  rw [h.pin, h.hub]
  exact Complex.ext (sub_zero _) (sub_zero _)

theorem place_joint_start {l : SliderCrank ℝ} (h : l.Drafted g slider cfg made a) :
    (a.node g.joint).place - (a.node g.hub).place = (l.crank + l.coupler : ℝ) := by
  rw [h.joint, h.hub]
  exact Complex.ext (sub_zero _) (sub_zero _)

/-- A slider-crank as it is built has what it wants when the driver wants an angle on the x-axis, ahead or behind. -/
theorem settled_of_straight {l : SliderCrank ℝ} (h : l.Drafted g slider cfg made a) (hcrank : 0 ≤ l.crank)
    (hcoupler : 0 < l.coupler) (htolerance : 0 < cfg.tolerance) (hreach : l.crank + l.coupler ≤ cfg.reach)
    (hab : Driven g.driver a b) (hnode : b.node = a.node)
    (hdrive : (b.constraint g.driver).angleTarget = some (.fixed phi)) (hsin : Real.sin phi = 0) :
    ∀ c ∈ (b.system g.system).constraints, b.Settled c := by
  obtain ⟨⟨hhubpin, hhubjoint⟩, hpinjoint⟩ := h.apart
  obtain ⟨⟨hother, hdriverslider⟩, -⟩ := h.distinct
  have hconfig := Slide.configOf h hab
  have hhub : (b.node g.hub).Heavy := by
    rw [hnode, h.hub]
    exact Node.heavy_create ..
  have hpin : (b.node g.pin).Heavy := by
    rw [hnode, h.pin]
    exact Node.heavy_create ..
  have hjoint : (b.node g.joint).Heavy := by
    rw [hnode, h.joint]
    exact Node.heavy_create ..
  have hcrank' := place_pin_start h
  have hslide := place_joint_start h
  rw [← hnode] at hcrank' hslide
  rw [hab.system, h.listed]
  intro c hc
  have htolerance : 0 < (b.configOf c).tolerance := by rwa [hconfig c hc]
  have hreach : l.crank + l.coupler ≤ (b.configOf c).reach := by rwa [hconfig c hc]
  rw [List.mem_cons, List.mem_cons, List.mem_singleton] at hc
  -- the driver wants an angle along the x-axis and the crank lies on it; the coupler wants its length alone
  obtain rfl | rfl | rfl := hc
  · refine ⟨g.hub, g.pin, .either, by rw [hab.shape, h.driver], hhubpin, ⟨hhub, hpin⟩, htolerance, ?_, ?_⟩
    · rw [hdrive, hcrank']
      rintro _ ⟨⟩
      exact ⟨phi, rfl, offset_of_straight (Complex.ofReal_im _) hsin, Or.inl rfl, norm_level_le hcrank (by linarith)⟩
    · rw [hab.lengthTarget, h.driver, ← Node.toComplex_vectorTo, ← Vec.length_eq_norm, hnode, h.hub, h.pin]
      rintro _ ⟨⟩
      rfl
  · refine ⟨g.pin, g.joint, .either, by rw [hab.shape, h.coupler], hpinjoint, ⟨hpin, hjoint⟩, htolerance, ?_, ?_⟩
    · rw [hab.angleTarget _ hother.symm, h.coupler]
      rintro _ ⟨⟩
    · rw [hab.lengthTarget, h.coupler, ← Node.toComplex_vectorTo, ← Vec.length_eq_norm, hnode, h.joint, h.pin]
      rintro _ ⟨⟩
      rfl
  · refine ⟨g.hub, g.joint, .along, by rw [hab.shape, h.guide], hhubjoint, ⟨hhub, hjoint⟩, htolerance, ?_, ?_⟩
    · rw [hab.angleTarget _ hdriverslider.symm, h.guide, hslide]
      rintro _ ⟨⟩
      refine ⟨0, rfl, offset_of_straight (Complex.ofReal_im _) Real.sin_zero, Or.inr ?_,
        norm_level_le (by linarith) hreach⟩
      rw [advance_zero, Complex.ofReal_re]
      exact mul_pos one_pos (by linarith)
    · rw [hab.lengthTarget, h.guide]
      rintro _ ⟨⟩

/-- A step of a slider-crank as it is built that drives the crank onto the x-axis, ahead or behind, is met at once with
the crank where it was. -/
theorem runs_turnTo_straight (h : SliderCrank.Drafted ⟨10, 30⟩ g slider cfg made a) (hcap : 1 ≤ cfg.cap)
    (htolerance : 0 < cfg.tolerance) (hreach : 100 ≤ cfg.reach) {m : Mechanism} (hdriver : m.driver = g.driver)
    (hsystem : m.system = g.system) (hname : m.joints.lookup "A" = some g.pin) {steps step : Int} {turns : ℝ}
    (hphi : Mechanism.stepAngle steps turns step = .ok phi) (hsin : Real.sin phi = 0) :
    Runs (m.turnTo steps turns step) a fun r _ => ∃ item, r = .ok item ∧ item.iterations = 1 ∧ item.phi = phi ∧
      item.coords.lookup "A" = some ⟨10, 0⟩ := by
  refine runs_turnTo_of (fun fault hfault => nomatch hphi.symm.trans hfault) fun psi b hpsi hdriven hnode hdrive => ?_
  obtain rfl : phi = psi := Except.ok.inj (hphi.symm.trans hpsi)
  rw [hdriver] at hdriven hdrive
  rw [hsystem]
  have hcap : 1 ≤ (b.config (b.system g.system).config).cap := by rwa [hdriven.system, hdriven.config, h.config]
  -- once driven, every constraint has what it wants, so that the run rests after one sweep
  have hsettled := settled_of_straight h (by norm_num) (by norm_num) htolerance (by norm_num; linarith) hdriven hnode
    hdrive hsin
  refine (runs_correct_resting (hdriven.coherent made h.coherent) hcap fun c hc => (hsettled c hc).rests).mono ?_
  rintro _ c ⟨rfl, hplace⟩
  have hpin : (c.node g.pin).place = ⟨10, 0⟩ := by
    rw [hplace, hnode, h.pin]
    rfl
  have hcoords : (m.coords c).lookup "A" = some ⟨10, 0⟩ := by
    rw [Mechanism.lookup_coords hname]
    exact congrArg (fun z : ℂ => some (⟨z.re, z.im⟩ : Vec ℝ)) hpin
  exact ⟨_, rfl, rfl, rfl, hcoords⟩

/-- The only step of a sweep has all of its turns. -/
theorem stepAngle_once (turns : ℝ) :
    Mechanism.stepAngle 1 turns (((0 : Nat) : Int) + 1) = .ok (2 * Real.pi * turns) := by
  have hdivide : Scalar.divide (Scalar.turn * turns * ((((0 : Nat) : Int) + 1 : Int) : ℝ)) ((1 : Int) : ℝ) =
      .ok (2 * Real.pi * turns) := by
    have hturn : (Scalar.turn : ℝ) = 2 * Real.pi := congrArg (· * Real.pi) one_add_one_eq_two
    rw [Scalar.divide_eq_ok, hturn]
    norm_num
  exact hdivide

/-- A sweep of one step that ends on the x-axis, ahead or behind. -/
theorem sweep_straight {st : Session ℝ} (hcoherent : Coherent made st.assembly) (hcap : 1 ≤ st.assembly.ambient.cap)
    (htolerance : 0 < st.assembly.ambient.tolerance) (hreach : 100 ≤ st.assembly.ambient.reach) {turns : ℝ}
    (hsin : Real.sin (2 * Real.pi * turns) = 0) : ∃ m, (sliderCrank ⟨10, 30⟩).answer st = .ok m ∧
      ∃ item, (m.sweep 1 turns ((sliderCrank ⟨10, 30⟩).after st)).1.items = [item] ∧ item.iterations = 1 ∧
        item.phi = 2 * Real.pi * turns ∧ item.coords.lookup "A" = some ⟨10, 0⟩ := by
  obtain ⟨g, slider, -, hanswer, hdraft⟩ := (runs_sliderCrank hcoherent (l := ⟨10, 30⟩) (by norm_num)).at_session
  have hphi := stepAngle_once turns
  set m : Mechanism := ⟨"slider-crank", g.system, g.driver, [("A0", g.hub), ("A", g.pin), ("B", g.joint)]⟩ with hm
  refine ⟨m, hanswer, ?_⟩
  obtain ⟨item, hturn, hiterations, hangle, hcoords⟩ :=
    (runs_turnTo_straight hdraft hcap htolerance hreach (m := m) rfl rfl rfl hphi hsin).at_session
  refine ⟨item, ?_, hiterations, hangle, hcoords⟩
  have hsteps : (m.stepsFrom 1 turns 1 0 ((sliderCrank ⟨10, 30⟩).after st)).1.items = [item] := by
    unfold answer at hturn
    unfold Mechanism.stepsFrom
    cases hstep : m.turnTo 1 turns (((0 : Nat) : Int) + 1) ((sliderCrank ⟨10, 30⟩).after st) with
    | error fault st' =>
      rw [hstep] at hturn
      cases hturn
    | ok first st' =>
      rw [hstep] at hturn
      cases hturn
      rfl
  exact hsteps

end Straight

/-! ### Sweeps of ready-made mechanisms -/

/-- Both ready-made mechanisms, with the default lengths, are built with the crank along the drive, and sweeps keep it on
its side by the rule of `Sided`. -/
theorem sided_of_built {g : Gear} {cfg : Config ℝ} {coupler : ℝ} {zone wide : Set ℂ} {st : Session ℝ} {m : Mechanism}
    (hbuilt : g.Built cfg coupler zone wide st.assembly ∧ g.Posed zone st.assembly ∧
      (st.assembly.node g.pin).place = (10 : ℝ) * bearing 0) (hclear : Gear.Clearance coupler zone wide)
    (hdriver : m.driver = g.driver) (hsystem : m.system = g.system) (hname : m.joints.lookup "A" = some g.pin)
    (steps : Int) (turns : ℝ) : Sided "A" 0 True (m.sweep steps turns st).1.items := by
  obtain ⟨hbuilt, hposed, hpin⟩ := hbuilt
  have hsided := hbuilt.sweep_sided hclear hdriver hsystem hname (refl_of _ st.assembly) hposed hpin (by norm_num) steps turns
  rwa [eq_true (by norm_num : (0 : ℝ) < 10)] at hsided

/-- The crank of a ready-made mechanism with the default lengths follows the drive through steps of less than a quarter
turn each, and in any sweep it changes sides with every step of more than a quarter turn. -/
theorem crank_follows (ambient : Config ℝ) (journal : Journal ℝ) (ops : List (Operation ℝ))
    (hgenuine : Genuine [] ops ⟨.empty ambient, journal⟩) (st : Session ℝ) (hst : st = run ops ⟨.empty ambient, journal⟩)
    (cfg : Config ℝ) (hcfg : cfg = st.assembly.ambient) (hcap : 1 ≤ cfg.cap) (htolerance : cfg.tolerance ≤ 1 / 10)
    (hreach : 100 ≤ cfg.reach) (build : Act ℝ Mechanism)
    (hbuild : build = fourBar ⟨40, 10, 40, 30⟩ ∨ build = sliderCrank ⟨10, 30⟩) :
    ∃ m, build.answer st = .ok m ∧ ∀ (steps : Int) (turns : ℝ) (items : List (Mechanism.Step ℝ)),
      items = (m.sweep steps turns (build.after st)).1.items → Sided "A" 0 True items ∧
        (Gentle 0 items → ∀ item ∈ items, 0 < item.iterations → item.Follows "A") := by
  have hcoherent := coherent_run_empty hgenuine
  rw [← hst] at hcoherent
  have htuned : Gear.Tuned cfg := ⟨hcap, htolerance, hreach⟩
  obtain ⟨m, hanswer, hsided⟩ : ∃ m, build.answer st = .ok m ∧
      ∀ steps turns, Sided "A" 0 True (m.sweep steps turns (build.after st)).1.items := by
    -- the two mechanisms differ in how they are built and guided, and agree in what makes the crank keep its side
    rcases hbuild with rfl | rfl
    · obtain ⟨rise, hrise, hsquare, hjoint⟩ := Rock.joint_default
      obtain ⟨g, pivot, rocker, ground, name, key, hguides, hanswer, hdraft⟩ :=
        (runs_fourBar hcoherent Rock.closes_default hjoint).at_session
      rw [← hcfg] at hdraft
      exact ⟨_, hanswer, sided_of_built (Rock.built hrise hsquare hdraft hguides htuned) Rock.clearance rfl rfl rfl⟩
    · obtain ⟨g, slider, hguides, hanswer, hdraft⟩ :=
        (runs_sliderCrank hcoherent (l := ⟨10, 30⟩) (by norm_num)).at_session
      rw [← hcfg] at hdraft
      exact ⟨_, hanswer, sided_of_built (Slide.built hdraft hguides htuned) Slide.clearance rfl rfl rfl⟩
  refine ⟨m, hanswer, fun steps turns items hitems => ?_⟩
  subst hitems
  exact ⟨hsided steps turns, (hsided steps turns).follows trivial⟩

/-- The session of a program that has built nothing yet. -/
noncomputable def newSession (ambient : Config ℝ) : Session ℝ :=
  ⟨.empty ambient, .empty Level.warning⟩

theorem coherent_newSession (ambient : Config ℝ) : Coherent [] (newSession ambient).assembly :=
  Assembly.coherent_empty ambient

/-- One full turn in one step: the crank is where the drive wants it. -/
theorem crank_follows_round : ∃ m, (sliderCrank ⟨10, 30⟩).answer (newSession ⟨.int 256, 1 / 10, 1000000⟩) = .ok m ∧
    ∃ item ∈ (m.sweep 1 1 ((sliderCrank ⟨10, 30⟩).after (newSession ⟨.int 256, 1 / 10, 1000000⟩))).1.items,
      0 < item.iterations ∧ item.phi = 2 * Real.pi ∧ item.Follows "A" := by
  have htolerance : (0 : ℝ) < 1 / 10 := by norm_num
  have hreach : (100 : ℝ) ≤ 1000000 := by norm_num
  have hsin : Real.sin (2 * Real.pi * 1) = 0 := by rw [mul_one, Real.sin_two_pi]
  obtain ⟨m, hanswer, hsweep⟩ := crank_follows ⟨.int 256, 1 / 10, 1000000⟩ (.empty Level.warning) [] trivial
    (newSession ⟨.int 256, 1 / 10, 1000000⟩) rfl _ rfl (by decide) le_rfl hreach (sliderCrank ⟨10, 30⟩) (Or.inr rfl)
  obtain ⟨m', hanswer', item, hitems, hiterations, hphi, -⟩ :=
    sweep_straight (coherent_newSession ⟨.int 256, 1 / 10, 1000000⟩) (by decide) htolerance hreach hsin
  obtain rfl : m' = m := Except.ok.inj (hanswer'.symm.trans hanswer)
  rw [mul_one] at hphi
  have hgentle : Gentle 0 [item] := by
    have hcos : Scalar.epsilon < Real.cos (item.phi - 0) := by
      rw [hphi, sub_zero, Real.cos_two_pi]
      exact epsilon_lt_hundredth.trans (by norm_num)
    unfold Gentle
    rw [if_neg (by rw [hiterations]; exact one_ne_zero)]
    exact ⟨hcos, trivial⟩
  have hmem : item ∈ [item] := .head _
  have hpos : 0 < item.iterations := by rw [hiterations]; exact one_pos
  have hfollows := (hsweep 1 1 [item] hitems.symm).2 hgentle item hmem hpos
  exact ⟨m', hanswer, item, hitems ▸ hmem, hpos, hphi, hfollows⟩

/-- Half a turn in one step: every constraint is met with the crank where it was, and the drive on the other side. -/
theorem crank_opposed : ∃ m, (sliderCrank ⟨10, 30⟩).answer (newSession ⟨.int 256, 1 / 10, 1000000⟩) = .ok m ∧
    ∃ item ∈ (m.sweep 1 (1 / 2) ((sliderCrank ⟨10, 30⟩).after (newSession ⟨.int 256, 1 / 10, 1000000⟩))).1.items,
      0 < item.iterations ∧ item.phi = Real.pi ∧ item.coords.lookup "A" = some ⟨10, 0⟩ ∧ ¬item.Follows "A" := by
  have htolerance : (0 : ℝ) < 1 / 10 := by norm_num
  have hreach : (100 : ℝ) ≤ 1000000 := by norm_num
  have hhalf : 2 * Real.pi * (1 / 2) = Real.pi := by ring
  have hsin : Real.sin (2 * Real.pi * (1 / 2)) = 0 := by rw [hhalf, Real.sin_pi]
  obtain ⟨m, hanswer, item, hitems, hiterations, hphi, hcoords⟩ :=
    sweep_straight (coherent_newSession ⟨.int 256, 1 / 10, 1000000⟩) (by decide) htolerance hreach hsin
  rw [hhalf] at hphi
  have hmem : item ∈ [item] := .head _
  refine ⟨m, hanswer, item, hitems ▸ hmem, by rw [hiterations]; exact one_pos, hphi, hcoords, ?_⟩
  rintro ⟨d, hd, hahead⟩
  unfold Mechanism.Step.along at hd
  rw [hcoords, hphi, Real.cos_pi, Real.sin_pi] at hd
  obtain rfl : 10 * -1 + 0 * 0 = d := Option.some.inj hd
  norm_num at hahead

end Linkage
