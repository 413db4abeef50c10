import Linkage.Proofs.Cranks
import Linkage.Proofs.Drafting

/-!
# Linkage.Proofs.Sliders — the slider-crank keeps its slider in front of the hub

A slider-crank is built as a gear whose joint is the slider, with one guide that projects the slider onto the x-axis
(`runs_sliderCrank`).  With a crank of ten and a coupler of thirty the slider stays between `19.8` and `40.2`
(`Slide.clearance`): from the lower end the coupler never pulls it back, and from the upper end it never pushes it on.
-/

namespace Linkage

open Act
open Assembly (Coherent Draft Driven)
open Mechanism (SliderCrank sliderCrank)

/-! ### Building -/

namespace Mechanism.SliderCrank

variable {α : Type} [Scalar α]

def hub : Node α := .create 0 0 true (some 1) (some "A0")

def pin (l : SliderCrank α) : Node α := .create l.crank 0 false (some 1) (some "A")

def joint (l : SliderCrank α) : Node α := .create (l.crank + l.coupler) 0 false (some 1) (some "B")

/-- The nodes of a slider-crank, in the order in which they are made. -/
def nodes (l : SliderCrank α) (g : Gear) : List (NodeId × Node α) :=
  [(g.hub, hub), (g.pin, l.pin), (g.joint, l.joint)]

/-- The constraints of a slider-crank, in the order in which they are made. -/
def constraints (l : SliderCrank α) (g : Gear) (slider : ConstraintId) : List (ConstraintId × Constraint α) :=
  [(g.driver, ⟨some "crank", .pair g.hub g.pin .either, some g.system, [],
      some (.fixed (hub.vectorTo l.pin).length), some (.fixed 0)⟩),
    (g.coupler, ⟨some "coupler", .pair g.pin g.joint .either, some g.system, [],
      some (.fixed (l.pin.vectorTo l.joint).length), none⟩),
    (slider, ⟨some "slider", .pair g.hub g.joint .along, some g.system, [], none, some (.fixed 0)⟩)]

/-- What is known of a slider-crank once it is drafted. -/
structure Drafted (l : SliderCrank α) (g : Gear) (slider : ConstraintId) (cfg : Config α) (made : List Reference)
    (a : Assembly α) : Prop where
  coherent : Coherent made a
  config : a.config (a.system g.system).config = cfg
  listed : (a.system g.system).constraints = [g.driver, g.coupler, slider]
  hub : a.node g.hub = hub
  pin : a.node g.pin = l.pin
  joint : a.node g.joint = l.joint
  apart : (g.hub ≠ g.pin ∧ g.hub ≠ g.joint) ∧ g.pin ≠ g.joint
  driver : a.constraint g.driver = ⟨some "crank", .pair g.hub g.pin .either, some g.system, [],
    some (.fixed (SliderCrank.hub.vectorTo l.pin).length), some (.fixed 0)⟩
  coupler : a.constraint g.coupler = ⟨some "coupler", .pair g.pin g.joint .either, some g.system, [],
    some (.fixed (l.pin.vectorTo l.joint).length), none⟩
  guide : a.constraint slider = ⟨some "slider", .pair g.hub g.joint .along, some g.system, [], none, some (.fixed 0)⟩
  distinct : (g.driver ≠ g.coupler ∧ g.driver ≠ slider) ∧ g.coupler ≠ slider

theorem drafted {l : SliderCrank α} {g : Gear} {slider : ConstraintId} {cfg : Config α} {made : List Reference}
    {a : Assembly α} (h : Draft g.system cfg (l.nodes g) (l.constraints g slider) made a) :
    l.Drafted g slider cfg made a where
  coherent := h.coherent
  config := h.config
  listed := h.listed
  hub := (h.node _ (.head _)).2
  pin := (h.node _ (.tail _ (.head _))).2
  joint := (h.node _ (.tail _ (.tail _ (.head _)))).2
  apart := by simpa [nodes] using h.apart
  driver := (h.constraint _ (.head _)).2
  coupler := (h.constraint _ (.tail _ (.head _))).2
  guide := (h.constraint _ (.tail _ (.tail _ (.head _)))).2
  distinct := by simpa [constraints] using h.distinct

end Mechanism.SliderCrank

/-- A slider-crank whose coupler is longer than its crank is drafted, in the ambient configuration. -/
theorem runs_sliderCrank_draft {α : Type} [Scalar α] {a : Assembly α} {made : List Reference} (h : Coherent made a)
    {l : SliderCrank α} (hlong : ¬l.coupler ≤ l.crank) : Runs (sliderCrank l) a fun r b =>
      ∃ (g : Gear) (slider : ConstraintId), g.guides = [slider] ∧
        r = .ok ⟨"slider-crank", g.system, g.driver, [("A0", g.hub), ("A", g.pin), ("B", g.joint)]⟩ ∧
        Draft g.system a.ambient (l.nodes g) (l.constraints g slider) made b := by
  unfold sliderCrank
  rw [if_neg hlong]
  refine runs_bind ((runs_newSystem_draft h).mono ?_)
  rintro _ b ⟨s, rfl, hdraft⟩
  rw [then_ok]
  refine runs_bind ((hdraft.runs_node 0 0 _).mono ?_)
  rintro _ b ⟨a₀, rfl, hdraft⟩
  rw [then_ok]
  refine runs_bind ((hdraft.runs_node l.crank 0 _).mono ?_)
  rintro _ b ⟨p, rfl, hdraft⟩
  rw [then_ok]
  refine runs_bind ((hdraft.runs_node (l.crank + l.coupler) 0 _).mono ?_)
  rintro _ b ⟨j, rfl, hdraft⟩
  rw [then_ok]
  have hnodes : Draft s a.ambient [(a₀, SliderCrank.hub), (p, l.pin), (j, l.joint)] [] made b := hdraft
  have hhub : (a₀, SliderCrank.hub) ∈ [(a₀, SliderCrank.hub), (p, l.pin), (j, l.joint)] := .head _
  have hpin : (p, l.pin) ∈ [(a₀, SliderCrank.hub), (p, l.pin), (j, l.joint)] := .tail _ (.head _)
  have hjoint : (j, l.joint) ∈ [(a₀, SliderCrank.hub), (p, l.pin), (j, l.joint)] := .tail _ (.tail _ (.head _))
  obtain ⟨⟨hhubpin, hhubjoint⟩, hpinjoint⟩ : (a₀ ≠ p ∧ a₀ ≠ j) ∧ p ≠ j := by simpa using hnodes.apart
  refine runs_bind (Runs.mono (hnodes.runs_pair hhub hpin hhubpin rfl (by simp) rfl (Spec.settle_const _) rfl
    (List.nil_subset _)) ?_)
  rintro _ b ⟨driver, rfl, hdraft⟩
  rw [then_ok]
  refine runs_bind (runs_discard (Runs.mono (hdraft.runs_pair hpin hjoint hpinjoint rfl (by simp) rfl
    (Spec.settle_const _) rfl (List.nil_subset _)) ?_))
  rintro _ b ⟨coupler, rfl, hdraft⟩
  change Then _ _ (.ok ()) b
  rw [then_ok]
  refine runs_bind (runs_discard (Runs.mono (hdraft.runs_pair hhub hjoint hhubjoint rfl (by simp) rfl rfl rfl
    (List.nil_subset _)) ?_))
  rintro _ b ⟨slider, rfl, hdraft⟩
  change Then _ _ (.ok ()) b
  rw [then_ok]
  refine runs_read (runs_after_report (runs_pure ?_))
  exact ⟨⟨s, a₀, p, j, driver, coupler, [slider]⟩, slider, rfl, rfl, hdraft⟩

/-- A slider-crank whose coupler is longer than its crank is built, in the ambient configuration. -/
theorem runs_sliderCrank {α : Type} [Scalar α] {a : Assembly α} {made : List Reference} (h : Coherent made a)
    {l : SliderCrank α} (hlong : ¬l.coupler ≤ l.crank) : Runs (sliderCrank l) a fun r b =>
      ∃ (g : Gear) (slider : ConstraintId), g.guides = [slider] ∧
        r = .ok ⟨"slider-crank", g.system, g.driver, [("A0", g.hub), ("A", g.pin), ("B", g.joint)]⟩ ∧
        l.Drafted g slider a.ambient made b := by
  refine (runs_sliderCrank_draft h hlong).mono ?_
  rintro r b ⟨g, slider, hguides, hr, hdraft⟩
  exact ⟨g, slider, hguides, hr, SliderCrank.drafted hdraft⟩

/-! ### Where the slider may be -/

namespace Slide

/-- In front of the hub, neither too near nor too far. -/
structure Ahead (B : ℂ) : Prop where
  least : 198 / 10 ≤ B.re
  most : B.re ≤ 402 / 10

/-- The part of the x-axis on which the slider stays. -/
def zone : Set ℂ := {B | B.im = 0 ∧ Ahead B}

/-- The strip above and below it, where the coupler may leave the slider. -/
def wide : Set ℂ := {B | Ahead B}

variable {P B : ℂ}

theorem sq_add_sq_le (hP : |10 - ‖P‖| ≤ 1 / 10) : P.re ^ 2 + P.im ^ 2 ≤ (101 / 10) ^ 2 := by
  have hlength := (abs_le.mp hP).1
  have hsquare : ‖P‖ ^ 2 = P.re ^ 2 + P.im ^ 2 := by
    rw [Complex.sq_norm, Complex.normSq_apply]
    ring
  rw [← hsquare]
  exact pow_le_pow_left₀ (norm_nonneg P) (by linarith) 2

/-- The slider at thirty from the pin, in the direction where it is, is not nearer to the hub than the lower end. -/
theorem lower_le {p q b r c : ℝ} (hpin : p ^ 2 + q ^ 2 ≤ (101 / 10) ^ 2) (hb : 198 / 10 ≤ b) (hr : 0 < r)
    (hlength : r ^ 2 = (b - p) ^ 2 + q ^ 2) (hdirection : r * c = b - p) : 198 / 10 ≤ p + 30 * c := by
  obtain ⟨hpleft, hp⟩ : -(101 / 10) ≤ p ∧ p ≤ 101 / 10 :=
    abs_le.mp (abs_le_of_sq_le_sq (by linarith [sq_nonneg q]) (by norm_num))
  set y := 198 / 10 - p with hy
  have hypos : 0 < y := by linarith
  have hyx : y ≤ b - p := by linarith
  -- the pin is within thirty of the lower end
  have hend : y ^ 2 + q ^ 2 < 30 ^ 2 := by
    rw [hy]
    linarith
  by_contra hless
  have hshort : 30 * (b - p) < y * r := by
    rw [← hdirection]
    nlinarith
  have hsquares : (30 * (b - p)) ^ 2 < (y * r) ^ 2 := pow_lt_pow_left₀ hshort (by linarith) two_ne_zero
  have hq : y ^ 2 * q ^ 2 ≤ (b - p) ^ 2 * q ^ 2 :=
    mul_le_mul_of_nonneg_right (pow_le_pow_left₀ hypos.le hyx 2) (sq_nonneg q)
  have hless : (b - p) ^ 2 * (y ^ 2 + q ^ 2) < (b - p) ^ 2 * 30 ^ 2 :=
    mul_lt_mul_of_pos_left hend (pow_pos (hypos.trans_le hyx) 2)
  rw [mul_pow, mul_pow, hlength] at hsquares
  linarith

theorem clearance : Gear.Clearance 30 zone wide := by
  have hfar {P B : ℂ} (hP : |10 - ‖P‖| ≤ 1 / 10) (hB : B ∈ zone) : 97 / 10 ≤ ‖B - P‖ := by
    have hre := (abs_le.mp (Complex.abs_re_le_norm P)).2
    have hdistance := (le_abs_self _).trans (Complex.abs_re_le_norm (B - P))
    rw [Complex.sub_re] at hdistance
    have := (abs_le.mp hP).1
    have := hB.2.least
    linarith
  constructor
  case apart =>
    intro P B hP hB
    linarith [hfar hP hB]
  case slack =>
    intro P B hP hB
    have hnorm : ‖B‖ ≤ 402 / 10 := by
      rw [← Complex.abs_re_eq_norm.mpr hB.1, abs_of_nonneg (by linarith [hB.2.least])]
      exact hB.2.most
    have hdistance := norm_sub_le B P
    have := (abs_le.mp hP).1
    exact abs_le.mpr ⟨by linarith, by linarith [hfar hP hB]⟩
  case pulled =>
    intro P B u hP hB hunit hu part hpart hpart'
    have hpin := sq_add_sq_le hP
    obtain ⟨him, hlow, hhigh⟩ : B.im = 0 ∧ 198 / 10 ≤ B.re ∧ B.re ≤ 402 / 10 := ⟨hB.1, hB.2.least, hB.2.most⟩
    have hr : 0 < ‖B - P‖ := by linarith [hfar hP hB]
    have hlength : ‖B - P‖ ^ 2 = (B.re - P.re) ^ 2 + P.im ^ 2 := by
      rw [Complex.sq_norm, Complex.normSq_apply, Complex.sub_re, Complex.sub_im, him]
      ring
    have hdirection := congrArg Complex.re hu
    rw [Complex.re_ofReal_mul, Complex.sub_re] at hdirection
    have hlower := lower_le hpin hlow hr hlength hdirection
    have hupper : P.re + 30 * u.re ≤ 402 / 10 := by
      have hure := (abs_le.mp (Complex.abs_re_le_norm u)).2
      have hPre : P.re ≤ 101 / 10 := by nlinarith [sq_nonneg P.im]
      linarith
    -- the slider comes to rest between where it was and where the coupler wants it
    have hbetween : (B + (part * (30 - ‖B - P‖) : ℝ) * u).re = (1 - part) * B.re + part * (P.re + 30 * u.re) := by
      rw [Complex.add_re, Complex.re_ofReal_mul]
      linear_combination -part * hdirection
    constructor
    · rw [hbetween]
      nlinarith
    · rw [hbetween]
      nlinarith
  case rest => exact fun B hB => hB.2

/-! ### The slider-crank as a gear -/

variable {g : Gear} {slider : ConstraintId} {cfg : Config ℝ} {a b : Assembly ℝ} {made : List Reference}

/-- The guide puts the slider on the x-axis. -/
theorem runs_slider (hcoherent : Coherent made a) (hshape : (a.constraint slider).shape = .pair g.hub g.joint .along)
    (hangle : (a.constraint slider).angleTarget = some (.fixed 0)) (hlength : (a.constraint slider).lengthTarget = none)
    (hreach : 100 ≤ (a.configOf slider).reach) (hhub : (a.node g.hub).Pinned 0) (hdistinct : g.pin ≠ g.joint)
    (hne : g.hub ≠ g.pin) {B : ℂ} {n : ℝ} (hjoint : (a.node g.joint).Loose B n) (hn : 0 < n) (hB : B ∈ wide) :
    Runs (correctOne slider) a fun r b => ∃ met, r = .ok met ∧ (b.node g.joint).place ∈ zone ∧
      b.node g.pin = a.node g.pin := by
  obtain ⟨hlow, hhigh⟩ := hB
  have hside : 0 < Direction.along.sign * advance B 0 := by
    rw [advance_zero]
    exact mul_pos one_pos (by linarith)
  have hnear : |advance B 0| ≤ (a.configOf slider).reach := by
    rw [advance_zero, abs_of_nonneg (by linarith)]
    linarith
  have hends : g.hub ≠ g.joint := hhub.ne_of_loose hjoint
  -- the guide wants angle zero on its side, and the joint is on that side: it is projected onto the x-axis
  obtain ⟨met, e, hturn, hkept, hturned⟩ := anglePass_pinned (a.configOf slider) (e := ⟨a.node g.hub, a.node g.joint⟩) hhub
    (show (a.node g.joint).Loose (0 + B) n by rwa [zero_add]) hn (Or.inr hside) hnear
  have hwanted : a.wanted slider (a.constraint slider).angleTarget = .ok (some 0) := by
    rw [hangle]
    rfl
  have hstretch : Pass.toward (lengthPass (a.configOf slider)) none e = .ok true e := rfl
  refine (runs_correctOne_pair hcoherent hshape hends hwanted (by rw [hlength]; rfl) hturn hstretch).mono ?_
  rintro _ b ⟨rfl, hnode⟩
  refine ⟨_, rfl, ?_, ?_⟩
  · rw [hnode]
    rw [Ends.put_second, hturned.place, advance_zero, zero_add, bearing_zero, mul_one]
    exact ⟨Complex.ofReal_im _, hlow, hhigh⟩
  · rw [hnode, Ends.put_other hne.symm hdistinct]

/-- The configuration of its constraints, however the crank is driven. -/
theorem configOf {l : SliderCrank ℝ} (h : l.Drafted g slider cfg made a) (hab : Driven g.driver a b) :
    ∀ c ∈ [g.driver, g.coupler, slider], b.configOf c = cfg := by
  intro c hc
  rw [← h.listed] at hc
  rw [hab.configOf, h.coherent.consistent.configOf hc, h.config]

/-- A slider-crank with a crank of ten and a coupler of thirty, as it is built. -/
theorem built (h : SliderCrank.Drafted ⟨10, 30⟩ g slider cfg made a) (hguides : g.guides = [slider])
    (htuned : Gear.Tuned cfg) :
    g.Built cfg 30 zone wide a ∧ g.Posed zone a ∧ (a.node g.pin).place = (10 : ℝ) * bearing 0 := by
  obtain ⟨⟨hhubpin, hhubjoint⟩, hpinjoint⟩ := h.apart
  obtain ⟨⟨hother, hdriverslider⟩, -⟩ := h.distinct
  have hplace : (a.node g.pin).place = (10 : ℝ) * bearing 0 := by
    rw [h.pin]
    exact Node.place_level rfl rfl
  refine ⟨{
    constraints := ?_, config := h.config, tuned := htuned, coherent := ⟨made, h.coherent⟩
    driverShape := ?_, driverLength := ?_, couplerShape := ?_, couplerLength := ?_, couplerAngle := ?_
    other := hother.symm, hub := ?_, pin := ?_, joint := ?_, distinct := hpinjoint, guided := ?_ }, ⟨?_, ?_⟩, hplace⟩
  · rw [h.listed, Gear.constraints, hguides]
  · rw [h.driver]
  · rw [h.driver, Vec.length_eq_of_sq (x := 10) (by norm_num)]
    norm_num [Node.vectorTo, SliderCrank.hub, SliderCrank.pin, Node.create]
  · rw [h.coupler]
  · rw [h.coupler, Vec.length_eq_of_sq (x := 30) (by norm_num)]
    norm_num [Node.vectorTo, SliderCrank.pin, SliderCrank.joint, Node.create]
  · rw [h.coupler]
  · rw [h.hub]
    exact ⟨rfl, rfl⟩
  · rw [h.pin]
    exact ⟨rfl, Node.mass_create ..⟩
  · rw [h.joint]
    exact ⟨rfl, Node.mass_create ..⟩
  · intro b hab B n hB hn hwide
    rw [hguides]
    have hfixed : (b.node g.hub).Pinned 0 := by
      rw [hab.base _ (by rw [h.hub]; rfl), h.hub]
      exact ⟨rfl, rfl⟩
    have hguide := runs_slider (hab.coherent made h.coherent) (by rw [hab.shape, h.guide])
      (by rw [hab.angleTarget _ hdriverslider.symm, h.guide]) (by rw [hab.lengthTarget, h.guide])
      (by rw [configOf h hab _ (.tail _ (.tail _ (.head _)))]; exact htuned.reach) hfixed hpinjoint hhubpin hB hn hwide
    refine runs_answersOf_cons (hguide.mono ?_)
    rintro _ b' ⟨met, rfl, hzone, hrest⟩
    exact ⟨met, rfl, runs_pure ⟨hzone, hrest⟩⟩
  · rw [hplace, norm_mul, norm_bearing, Complex.norm_real]
    norm_num
  · rw [h.joint]
    refine ⟨rfl, ?_, ?_⟩
    · norm_num [Node.place, SliderCrank.joint, Node.create]
    · norm_num [Node.place, SliderCrank.joint, Node.create]

end Slide

end Linkage
