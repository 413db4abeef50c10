import Linkage.Proofs.Cranks
import Linkage.Proofs.Drafting

/-!
# Linkage.Proofs.FourBars — the four-bar linkage keeps its rocker above the ground

A four-bar linkage is built as a gear whose joint is the end of the rocker, with two guides: the rocker, which brings the
joint back to its distance from the pivot and keeps it above the ground, and the ground itself, which wants nothing
(`runs_fourBar`).  With the default lengths the joint, as seen from the pivot, stays in a sector that reaches from a
little to the right of straight up to halfway between up and left (`Rock.clearance`).  A coupler that pulls it from there
leaves it in the sector, where the rocker is above the ground already and is stretched along itself.
-/

namespace Linkage

open Act
open Assembly (Coherent Draft Driven)
open Mechanism (FourBar fourBar)

/-! ### Building -/

namespace Mechanism.FourBar

variable {α : Type} [Scalar α]

def hub : Node α := .create 0 0 true (some 1) (some "A0")

def anchor (l : FourBar α) : Node α := .create l.ground 0 true (some 1) (some "B0")

def pin (l : FourBar α) : Node α := .create l.crank 0 false (some 1) (some "A")

def rockerEnd (l : FourBar α) (v : Vec α) : Node α := .create (l.crank + v.x) v.y false (some 1) (some "B")

/-- The nodes of a four-bar linkage, in the order in which they are made. -/
def nodes (l : FourBar α) (v : Vec α) (g : Gear) (pivot : NodeId) : List (NodeId × Node α) :=
  [(g.hub, hub), (pivot, l.anchor), (g.pin, l.pin), (g.joint, l.rockerEnd v)]

/-- The constraints of a four-bar linkage, in the order in which they are made. -/
def constraints (l : FourBar α) (v : Vec α) (g : Gear) (pivot : NodeId) (rocker ground : ConstraintId)
    (upper : Combinator α) : List (ConstraintId × Constraint α) :=
  [(g.driver, ⟨some "crank", .pair g.hub g.pin .either, some g.system, [],
      some (.fixed (hub.vectorTo l.pin).length), some (.fixed 0)⟩),
    (g.coupler, ⟨some "coupler", .pair g.pin g.joint .either, some g.system, [],
      some (.fixed (l.pin.vectorTo (l.rockerEnd v)).length), none⟩),
    (rocker, ⟨some "rocker", .pair pivot g.joint .either, some g.system, [],
      some (.fixed (l.anchor.vectorTo (l.rockerEnd v)).length), some (.computed upper)⟩),
    (ground, ⟨some "ground", .pair g.hub pivot .either, some g.system, [], none, none⟩)]

/-- What is known of a four-bar linkage once it is drafted. -/
structure Drafted (l : FourBar α) (v : Vec α) (g : Gear) (pivot : NodeId) (rocker ground : ConstraintId)
    (upper : Combinator α) (cfg : Config α) (made : List Reference) (a : Assembly α) : Prop where
  coherent : Coherent made a
  config : a.config (a.system g.system).config = cfg
  listed : (a.system g.system).constraints = [g.driver, g.coupler, rocker, ground]
  hub : a.node g.hub = hub
  anchor : a.node pivot = l.anchor
  pin : a.node g.pin = l.pin
  joint : a.node g.joint = l.rockerEnd v
  apart : (g.hub ≠ pivot ∧ g.hub ≠ g.pin ∧ g.hub ≠ g.joint) ∧ (pivot ≠ g.pin ∧ pivot ≠ g.joint) ∧ g.pin ≠ g.joint
  driver : a.constraint g.driver = ⟨some "crank", .pair g.hub g.pin .either, some g.system, [],
    some (.fixed (FourBar.hub.vectorTo l.pin).length), some (.fixed 0)⟩
  coupler : a.constraint g.coupler = ⟨some "coupler", .pair g.pin g.joint .either, some g.system, [],
    some (.fixed (l.pin.vectorTo (l.rockerEnd v)).length), none⟩
  guide : a.constraint rocker = ⟨some "rocker", .pair pivot g.joint .either, some g.system, [],
    some (.fixed (l.anchor.vectorTo (l.rockerEnd v)).length), some (.computed upper)⟩
  frame : a.constraint ground = ⟨some "ground", .pair g.hub pivot .either, some g.system, [], none, none⟩
  distinct : (g.driver ≠ g.coupler ∧ g.driver ≠ rocker ∧ g.driver ≠ ground) ∧
    (g.coupler ≠ rocker ∧ g.coupler ≠ ground) ∧ rocker ≠ ground

theorem drafted {l : FourBar α} {v : Vec α} {g : Gear} {pivot : NodeId} {rocker ground : ConstraintId}
    {upper : Combinator α} {cfg : Config α} {made : List Reference} {a : Assembly α}
    (h : Draft g.system cfg (l.nodes v g pivot) (l.constraints v g pivot rocker ground upper) made a) :
    l.Drafted v g pivot rocker ground upper cfg made a where
  coherent := h.coherent
  config := h.config
  listed := h.listed
  hub := (h.node _ (.head _)).2
  anchor := (h.node _ (.tail _ (.head _))).2
  pin := (h.node _ (.tail _ (.tail _ (.head _)))).2
  joint := (h.node _ (.tail _ (.tail _ (.tail _ (.head _))))).2
  apart := by simpa [nodes] using h.apart
  driver := (h.constraint _ (.head _)).2
  coupler := (h.constraint _ (.tail _ (.head _))).2
  guide := (h.constraint _ (.tail _ (.tail _ (.head _)))).2
  frame := (h.constraint _ (.tail _ (.tail _ (.tail _ (.head _))))).2
  distinct := by simpa [constraints] using h.distinct

end Mechanism.FourBar

/-- A four-bar linkage that closes is drafted, in the ambient configuration. -/
theorem runs_fourBar_draft {α : Type} [Scalar α] {a : Assembly α} {made : List Reference} (h : Coherent made a)
    {l : FourBar α} (hcloses : l.closes = true) {v : Vec α} (hv : l.joint = .ok v) : Runs (fourBar l) a fun r b =>
      ∃ (g : Gear) (pivot : NodeId) (rocker ground : ConstraintId) (name : Label α) (key : Nat),
        g.guides = [rocker, ground] ∧ r = .ok ⟨"four-bar", g.system, g.driver,
          [("A0", g.hub), ("B0", pivot), ("A", g.pin), ("B", g.joint)]⟩ ∧
        Draft g.system a.ambient (l.nodes v g pivot)
          (l.constraints v g pivot rocker ground ⟨name, .around ⟨key, "ground", .angle⟩ 0 Scalar.pi⟩)
          (made ++ [⟨key, "ground", .angle⟩]) b := by
  unfold fourBar
  rw [hcloses]
  refine runs_bind (runs_ofExcept ?_)
  rw [hv, then_ok]
  refine runs_bind ((runs_newSystem_draft h).mono ?_)
  rintro _ b ⟨s, rfl, hdraft⟩
  rw [then_ok]
  refine runs_bind ((hdraft.runs_node 0 0 _).mono ?_)
  rintro _ b ⟨a₀, rfl, hdraft⟩
  rw [then_ok]
  refine runs_bind ((hdraft.runs_node l.ground 0 _).mono ?_)
  rintro _ b ⟨b₀, rfl, hdraft⟩
  rw [then_ok]
  refine runs_bind ((hdraft.runs_node l.crank 0 _).mono ?_)
  rintro _ b ⟨p, rfl, hdraft⟩
  rw [then_ok]
  refine runs_bind ((hdraft.runs_node (l.crank + v.x) v.y _).mono ?_)
  rintro _ b ⟨j, rfl, hdraft⟩
  rw [then_ok]
  have hnodes : Draft s a.ambient [(a₀, FourBar.hub), (b₀, l.anchor), (p, l.pin), (j, l.rockerEnd v)] [] made b := hdraft
  set nodes := [(a₀, FourBar.hub), (b₀, l.anchor), (p, l.pin), (j, l.rockerEnd v)] with hlist
  have hhub : (a₀, FourBar.hub) ∈ nodes := .head _
  have hpivot : (b₀, l.anchor) ∈ nodes := .tail _ (.head _)
  have hpin : (p, l.pin) ∈ nodes := .tail _ (.tail _ (.head _))
  have hjoint : (j, l.rockerEnd v) ∈ nodes := .tail _ (.tail _ (.tail _ (.head _)))
  obtain ⟨⟨hhubpivot, hhubpin, -⟩, ⟨-, hpivotjoint⟩, hpinjoint⟩ :
      (a₀ ≠ b₀ ∧ a₀ ≠ p ∧ a₀ ≠ j) ∧ (b₀ ≠ p ∧ b₀ ≠ j) ∧ p ≠ j := by simpa [hlist] using hnodes.apart
  refine runs_bind (Runs.mono (hnodes.runs_pair hhub hpin hhubpin rfl (by simp) rfl (Spec.settle_const _) rfl
    (List.nil_subset _)) ?_)
  rintro _ b ⟨driver, rfl, hdraft⟩
  rw [then_ok]
  refine runs_bind (runs_discard (Runs.mono (hdraft.runs_pair hpin hjoint hpinjoint rfl (by simp) rfl
    (Spec.settle_const _) rfl (List.nil_subset _)) ?_))
  rintro _ b ⟨coupler, rfl, hdraft⟩
  change Then _ _ (.ok ()) b
  rw [then_ok]
  refine runs_bind (Runs.mono (hdraft.runs_anglePosFrom "ground") ?_)
  rintro _ b ⟨name, key, rfl, hdraft⟩
  rw [then_ok]
  refine runs_bind (runs_discard (Runs.mono (hdraft.runs_pair hpivot hjoint hpivotjoint rfl (by simp) rfl
    (Spec.settle_const _) rfl (List.subset_append_right ..)) ?_))
  rintro _ b ⟨rocker, rfl, hdraft⟩
  change Then _ _ (.ok ()) b
  rw [then_ok]
  refine runs_bind (runs_discard (Runs.mono (hdraft.runs_pair hhub hpivot hhubpivot rfl (by simp) rfl
    rfl rfl (List.nil_subset _)) ?_))
  rintro _ b ⟨ground, rfl, hdraft⟩
  change Then _ _ (.ok ()) b
  rw [then_ok]
  refine runs_read (runs_after_report (runs_pure ?_))
  exact ⟨⟨s, a₀, p, j, driver, coupler, [rocker, ground]⟩, b₀, rocker, ground, name, key, rfl, rfl, hdraft⟩

/-- A four-bar linkage that closes is built, in the ambient configuration. -/
theorem runs_fourBar {α : Type} [Scalar α] {a : Assembly α} {made : List Reference} (h : Coherent made a)
    {l : FourBar α} (hcloses : l.closes = true) {v : Vec α} (hv : l.joint = .ok v) : Runs (fourBar l) a fun r b =>
      ∃ (g : Gear) (pivot : NodeId) (rocker ground : ConstraintId) (name : Label α) (key : Nat),
        g.guides = [rocker, ground] ∧ r = .ok ⟨"four-bar", g.system, g.driver,
          [("A0", g.hub), ("B0", pivot), ("A", g.pin), ("B", g.joint)]⟩ ∧
        l.Drafted v g pivot rocker ground ⟨name, .around ⟨key, "ground", .angle⟩ 0 Scalar.pi⟩ a.ambient
          (made ++ [⟨key, "ground", .angle⟩]) b := by
  refine (runs_fourBar_draft h hcloses hv).mono ?_
  rintro r b ⟨g, pivot, rocker, ground, name, key, hguides, hr, hdraft⟩
  exact ⟨g, pivot, rocker, ground, name, key, hguides, hr, FourBar.drafted hdraft⟩

/-! ### Where the end of the rocker may be -/

namespace Rock

/-- Directions from a little to the right of straight up to halfway between up and left. -/
structure Sector (v : ℂ) : Prop where
  left : 0 ≤ v.re + v.im
  right : 3 * v.re ≤ v.im

namespace Sector

variable {v w : ℂ}

theorem scale (hv : Sector v) {t : ℝ} (ht : 0 ≤ t) : Sector (t * v) := by
  constructor
  · rw [Complex.re_ofReal_mul, Complex.im_ofReal_mul, ← mul_add]
    exact mul_nonneg ht hv.left
  · rw [Complex.re_ofReal_mul, Complex.im_ofReal_mul, mul_left_comm]
    exact mul_le_mul_of_nonneg_left hv.right ht

theorem add (hv : Sector v) (hw : Sector w) : Sector (v + w) := by
  constructor
  · rw [Complex.add_re, Complex.add_im]
    linarith [hv.left, hw.left]
  · rw [Complex.add_re, Complex.add_im]
    linarith [hv.right, hw.right]

theorem im_nonneg (hv : Sector v) : 0 ≤ v.im := by linarith [hv.left, hv.right]

theorem sq_norm (v : ℂ) : ‖v‖ ^ 2 = v.re ^ 2 + v.im ^ 2 := by
  rw [Complex.sq_norm, Complex.normSq_apply]
  ring

/-- What is long is high. -/
theorem norm_le_two_mul_im (hv : Sector v) : ‖v‖ ≤ 2 * v.im := by
  have him := hv.im_nonneg
  have hre : v.re ^ 2 ≤ v.im ^ 2 := sq_le_sq.mpr (by
    rw [abs_of_nonneg him]
    exact abs_le.mpr ⟨by linarith [hv.left], by linarith [hv.right]⟩)
  refine abs_le_of_sq_le_sq' ?_ (by linarith) |>.2
  rw [sq_norm]
  linarith [sq_nonneg v.im]

end Sector

/-- Where the joint may be, as seen from the pivot: thirty away, up to the tolerance. -/
structure Swung (v : ℂ) : Prop where
  sector : Sector v
  length : |30 - ‖v‖| ≤ 1 / 10

/-- The places of the end of the rocker, thirty away from the pivot up to the tolerance. -/
def zone : Set ℂ := {B | Swung (B - 40)}

/-- The places from which the rocker brings its end back. -/
def wide : Set ℂ := {B | Sector (B - 40) ∧ 1 ≤ (B - 40).im ∧ ‖B - 40‖ ≤ 100}

namespace Swung

variable {v P u : ℂ}

theorem sq_bounds (h : Swung v) : (299 / 10) ^ 2 ≤ v.re ^ 2 + v.im ^ 2 ∧ v.re ^ 2 + v.im ^ 2 ≤ (301 / 10) ^ 2 := by
  obtain ⟨hmax, hmin⟩ := abs_le.mp h.length
  rw [← Sector.sq_norm]
  exact ⟨pow_le_pow_left₀ (by norm_num) (by linarith) 2, pow_le_pow_left₀ (norm_nonneg v) (by linarith) 2⟩

theorem sq_distance (v : ℂ) : ‖40 + v‖ ^ 2 = 1600 + 80 * v.re + (v.re ^ 2 + v.im ^ 2) := by
  have hre : (40 + v).re = 40 + v.re := by simp
  have him : (40 + v).im = v.im := by simp
  rw [Sector.sq_norm, hre, him]
  ring

/-- The farther the joint is from the hub, the farther it is from the left bound of the sector. -/
theorem farther (h : Swung v) : 543 / 10 * (‖40 + v‖ - 299 / 10) ≤ 40 * (v.re + v.im) := by
  obtain ⟨hmin, hmax⟩ := h.sq_bounds
  obtain ⟨hleft, hright⟩ := h.sector
  have hbetween := mul_nonneg hleft (sub_nonneg.mpr hright)
  have hsquares : ‖40 + v‖ ^ 2 ≤ (299 / 10 + 400 / 543 * (v.re + v.im)) ^ 2 := by
    rw [sq_distance]
    nlinarith
  have hdistance := (abs_le_of_sq_le_sq' hsquares (by linarith)).2
  linarith

/-- The nearer the joint is to the hub, the farther it is from the right bound of the sector. -/
theorem nearer (h : Swung v) : 152 * (501 / 10 - ‖40 + v‖) ≤ 40 * (v.im - 3 * v.re) := by
  obtain ⟨hmin, hmax⟩ := h.sq_bounds
  obtain ⟨hleft, hright⟩ := h.sector
  have hbetween := mul_nonneg hleft (sub_nonneg.mpr hright)
  have hsquares : (501 / 10 - 5 / 19 * (v.im - 3 * v.re)) ^ 2 ≤ ‖40 + v‖ ^ 2 := by
    rw [sq_distance]
    nlinarith
  have hdistance := (abs_le_of_sq_le_sq' hsquares (norm_nonneg _)).2
  linarith

/-- How far the joint can be from the hub. -/
theorem distance_bounds (h : Swung v) : 25 ≤ ‖40 + v‖ ∧ ‖40 + v‖ ≤ 572 / 10 := by
  obtain ⟨hmin, hmax⟩ := h.sq_bounds
  obtain ⟨hleft, hright⟩ := h.sector
  constructor
  · have hspread : v.im - 3 * v.re ≤ 952 / 10 :=
      (abs_le_of_sq_le_sq' (by linarith [sq_nonneg (3 * v.im + v.re)]) (by norm_num)).2
    linarith [h.nearer]
  · have hre : v.re ≤ 952 / 100 := by
      by_contra hless
      nlinarith
    have hsquares : ‖40 + v‖ ^ 2 ≤ (572 / 10) ^ 2 := by
      rw [sq_distance]
      linarith
    exact (abs_le_of_sq_le_sq' hsquares (by norm_num)).2

/-- The joint at forty from the pin, in the direction where it is, is in the sector. -/
theorem sector_wanted (h : Swung v) (hP : |10 - ‖P‖| ≤ 1 / 10) (hr : 0 < ‖40 + v - P‖)
    (hu : ‖40 + v - P‖ * u = 40 + v - P) : Sector (P + 40 * u - 40) := by
  have hpin : P.re ^ 2 + P.im ^ 2 ≤ (101 / 10) ^ 2 := by
    rw [← Sector.sq_norm]
    exact pow_le_pow_left₀ (norm_nonneg P) (by linarith [(abs_le.mp hP).1]) 2
  -- how far the pin can stick out in the two directions that bound the sector
  obtain ⟨hup, hup'⟩ : -(143 / 10) ≤ P.re + P.im ∧ P.re + P.im ≤ 143 / 10 :=
    abs_le_of_sq_le_sq' (by linarith [sq_nonneg (P.re - P.im)]) (by norm_num)
  obtain ⟨hdown, hdown'⟩ : -32 ≤ 3 * P.re - P.im ∧ 3 * P.re - P.im ≤ 32 :=
    abs_le_of_sq_le_sq' (by linarith [sq_nonneg (P.re + 3 * P.im)]) (by norm_num)
  have hfar := norm_sub_le (40 + v) P
  have hnear := norm_sub_norm_le (40 + v) P
  have hP := (abs_le.mp hP).1
  set r := ‖40 + v - P‖ with hrdef
  obtain ⟨hre, him⟩ : r * u.re = 40 + v.re - P.re ∧ r * u.im = v.im - P.im := by
    have hre := congrArg Complex.re hu
    have him := congrArg Complex.im hu
    rw [Complex.re_ofReal_mul] at hre
    rw [Complex.im_ofReal_mul] at him
    exact ⟨by simpa using hre, by simpa using him⟩
  have hwantedRe : (P + 40 * u - 40).re = P.re + 40 * u.re - 40 := by simp
  have hwantedIm : (P + 40 * u - 40).im = P.im + 40 * u.im := by simp
  constructor
  · have hsum : r * ((P + 40 * u - 40).re + (P + 40 * u - 40).im) =
        40 * (v.re + v.im) - (r - 40) * (40 - (P.re + P.im)) := by
      rw [hwantedRe, hwantedIm]
      linear_combination 40 * hre + 40 * him
    refine nonneg_of_mul_nonneg_right ?_ hr
    rw [hsum, sub_nonneg]
    rcases le_total r 40 with hshort | hlong
    · exact (mul_nonpos_of_nonpos_of_nonneg (by linarith) (by linarith)).trans (by linarith [h.sector.left])
    · calc (r - 40) * (40 - (P.re + P.im)) ≤ (‖40 + v‖ - 299 / 10) * (543 / 10) :=
            mul_le_mul (by linarith) (by linarith) (by linarith) (by linarith)
        _ = 543 / 10 * (‖40 + v‖ - 299 / 10) := mul_comm ..
        _ ≤ 40 * (v.re + v.im) := h.farther
  · have hsum : r * ((P + 40 * u - 40).im - 3 * (P + 40 * u - 40).re) =
        40 * (v.im - 3 * v.re) - (40 - r) * (120 - (3 * P.re - P.im)) := by
      rw [hwantedRe, hwantedIm]
      linear_combination 40 * him - 120 * hre
    refine sub_nonneg.mp (nonneg_of_mul_nonneg_right ?_ hr)
    rw [hsum, sub_nonneg]
    rcases le_total r 40 with hshort | hlong
    · calc (40 - r) * (120 - (3 * P.re - P.im)) ≤ (501 / 10 - ‖40 + v‖) * 152 :=
            mul_le_mul (by linarith) (by linarith) (by linarith) (by linarith)
        _ = 152 * (501 / 10 - ‖40 + v‖) := mul_comm ..
        _ ≤ 40 * (v.im - 3 * v.re) := h.nearer
    · exact (mul_nonpos_of_nonpos_of_nonneg (by linarith) (by linarith)).trans (by linarith [h.sector.right])

end Swung

theorem clearance : Gear.Clearance 40 zone wide := by
  have hspan {P B : ℂ} (hP : |10 - ‖P‖| ≤ 1 / 10) (hB : B ∈ zone) : 124 / 10 ≤ ‖B - P‖ ∧ ‖B - P‖ ≤ 676 / 10 := by
    obtain ⟨hleast, hmost⟩ := Swung.distance_bounds hB
    rw [add_sub_cancel] at hleast hmost
    have hfar := norm_sub_le B P
    have hnear := norm_sub_norm_le B P
    have hP := (abs_le.mp hP).1
    exact ⟨by linarith, by linarith⟩
  constructor
  case apart =>
    intro P B hP hB
    linarith [(hspan hP hB).1]
  case slack =>
    intro P B hP hB
    obtain ⟨hleast, hmost⟩ := hspan hP hB
    exact abs_le.mpr ⟨by linarith, by linarith⟩
  case pulled =>
    intro P B u hP hB hunit hu part hpart hpart'
    obtain ⟨hleast, hmost⟩ := hspan hP hB
    obtain ⟨v, rfl⟩ : ∃ v, B = 40 + v := ⟨B - 40, (add_sub_cancel 40 B).symm⟩
    have hB : Swung v := by rwa [← add_sub_cancel_left 40 v]
    -- the joint comes to rest between where it was and where the coupler wants it
    have hbetween : 40 + v + (part * (40 - ‖40 + v - P‖) : ℝ) * u - 40 =
        (1 - part : ℝ) * v + part * (P + 40 * u - 40) := by
      push_cast
      linear_combination -(part : ℂ) * hu
    have hwanted := hB.sector_wanted hP (by linarith) hu
    have hpartial : Sector ((part : ℝ) * (P + 40 * u - 40)) := hwanted.scale (by linarith)
    have hsector : Sector ((1 - part : ℝ) * v + part * (P + 40 * u - 40)) :=
      (hB.sector.scale (by linarith)).add hpartial
    refine ⟨?_, ?_, ?_⟩
    · rw [hbetween]
      exact hsector
    · rw [hbetween, Complex.add_im, Complex.im_ofReal_mul]
      have hhigh := hB.sector.norm_le_two_mul_im
      have hlength := (abs_le.mp hB.length).2
      have hrest := hpartial.im_nonneg
      have hv : 1 / 4 * v.im ≤ (1 - part) * v.im := mul_le_mul_of_nonneg_right (by linarith) (by linarith)
      linarith
    · have hmove : ‖((part * (40 - ‖40 + v - P‖) : ℝ) : ℂ) * u‖ ≤ 3 / 4 * (276 / 10) := by
        rw [norm_mul, hunit, mul_one, Complex.norm_real, Real.norm_eq_abs, abs_mul, abs_of_nonneg (by linarith)]
        exact mul_le_mul hpart' (abs_le.mpr ⟨by linarith, by linarith⟩) (abs_nonneg _) (by norm_num)
      have hnorm := norm_add_le v (((part * (40 - ‖40 + v - P‖) : ℝ) : ℂ) * u)
      have hlength := (abs_le.mp hB.length).1
      have hplace : 40 + v + ((part * (40 - ‖40 + v - P‖) : ℝ) : ℂ) * u - 40 =
          v + ((part * (40 - ‖40 + v - P‖) : ℝ) : ℂ) * u := by ring
      rw [hplace]
      linarith
  case rest =>
    intro B hB
    have hhigh := hB.sector.norm_le_two_mul_im
    obtain ⟨hmost, hleast⟩ := abs_le.mp hB.length
    exact ⟨hB.sector, by linarith, by linarith⟩

/-! ### The guides -/

/-- An angle from zero to half a turn is kept by a clamp to these bounds. -/
theorem clamp_wrap {w : ℝ} (hleast : 0 ≤ w) (hmost : w ≤ Real.pi) :
    Scalar.clamp (Scalar.wrap w) 0 (Scalar.pi : ℝ) = w := by
  have hmost' : ¬Scalar.pi < w := not_lt.mpr hmost
  -- below a full turn nothing is taken off, and up to half a turn nothing is wrapped around
  have hrest : Scalar.floorMod w Scalar.turn = w := by
    have hturn : (Scalar.turn : ℝ) = 2 * Real.pi := by
      change (1 + 1) * Real.pi = 2 * Real.pi
      ring
    have hzero : ⌊w / (2 * Real.pi)⌋ = 0 := by
      rw [Int.floor_eq_zero_iff]
      exact ⟨by positivity, (div_lt_one (by positivity)).mpr (by linarith [Real.pi_pos])⟩
    rw [hturn]
    change w - 2 * Real.pi * ⌊w / (2 * Real.pi)⌋ = w
    rw [hzero, Int.cast_zero, mul_zero, sub_zero]
  have hwrap : Scalar.wrap w = w := by
    unfold Scalar.wrap
    dsimp only
    rw [hrest, if_neg hmost']
  unfold Scalar.clamp Scalar.max Scalar.min
  rw [hwrap, if_neg (not_lt.mpr hleast), if_neg hmost']

variable {g : Gear} {pivot : NodeId} {rocker ground : ConstraintId} {cfg : Config ℝ} {a b : Assembly ℝ}
  {made : List Reference} {r : Reference} {name : Label ℝ}

/-- A constraint that is between another one, along the x-axis, and half a turn ahead of it wants the angle that it has. -/
theorem wanted_ahead (hfound : a.lookUp rocker r = .ok ground) (hlevel : a.angle ground = 0)
    (hleast : 0 ≤ a.angle rocker) (hmost : a.angle rocker ≤ Real.pi) :
    a.wanted rocker (some (.computed ⟨name, .around r 0 Scalar.pi⟩)) = .ok (some (a.angle rocker)) := by
  have hvalue : a.valueOf rocker (.around r 0 Scalar.pi) = .ok (a.angle rocker) := by
    unfold Assembly.valueOf
    dsimp only
    rw [Assembly.angleThrough_ok hfound, hlevel]
    change Except.ok (Scalar.clamp (Scalar.wrap (a.angle rocker - 0)) 0 Scalar.pi + 0) = _
    rw [sub_zero, add_zero, clamp_wrap hleast hmost]
  unfold Assembly.wanted Assembly.targetValue
  dsimp only
  rw [hvalue]
  rfl

/-- Stretching the rocker keeps the joint in the sector. -/
theorem lengthPass_rocker (htuned : Gear.Tuned cfg) {e : Ends ℝ} {z : ℂ} {n : ℝ} (hpivot : e.first.Pinned 40)
    (hjoint : e.second.Loose (40 + z) n) (hn : 0 < n) (hsector : Sector z) (hhigh : 1 ≤ z.im) :
    ∃ met e', lengthPass cfg 30 e = .ok met e' ∧ e'.second.place ∈ zone := by
  rcases lengthPass_pinned cfg hpivot hjoint hn 30 with
    ⟨hstretch, hnear⟩ | ⟨u, e', hstretch, -, hunit, hscaled, hstretched⟩
  · refine ⟨true, e, hstretch, ?_⟩
    change Swung (e.second.place - 40)
    rw [hjoint.place, add_sub_cancel_left]
    exact ⟨hsector, hnear.le.trans htuned.tolerance⟩
  · have hlong : 1 ≤ ‖z‖ := hhigh.trans ((le_abs_self _).trans (Complex.abs_im_le_norm z))
    have hscaled := hscaled (epsilon_lt_hundredth.trans (by linarith))
    -- stretching goes along the rocker itself, so that the joint only changes its distance from the pivot
    have hthirty : z + (30 - ‖z‖ : ℝ) * u = 30 * u := by
      push_cast
      linear_combination -hscaled
    have hdirection : (30 : ℂ) * u = (30 / ‖z‖ : ℝ) * z := by
      have hne : ((‖z‖ : ℝ) : ℂ) ≠ 0 := Complex.ofReal_ne_zero.mpr (by linarith)
      push_cast
      rw [div_mul_eq_mul_div, eq_div_iff hne]
      linear_combination 30 * hscaled
    refine ⟨false, e', hstretch, ?_⟩
    change Swung (e'.second.place - 40)
    rw [hstretched.place, add_sub_cancel_left, hthirty]
    refine ⟨?_, ?_⟩
    · rw [hdirection]
      exact hsector.scale (by positivity)
    · rw [norm_mul, hunit]
      norm_num

/-- The rocker stays above the ground, and brings the joint back to its distance from the pivot. -/
theorem runs_rocker (hcoherent : Coherent made a) (hshape : (a.constraint rocker).shape = .pair pivot g.joint .either)
    (hangle : (a.constraint rocker).angleTarget = some (.computed ⟨name, .around r 0 Scalar.pi⟩))
    (hlength : (a.constraint rocker).lengthTarget = some (.fixed 30)) (hfound : a.lookUp rocker r = .ok ground)
    (hlevel : a.angle ground = 0) (htuned : Gear.Tuned (a.configOf rocker)) (hpivot : (a.node pivot).Pinned 40)
    (hne : pivot ≠ g.pin) (hdistinct : g.pin ≠ g.joint) {B : ℂ} {n : ℝ} (hjoint : (a.node g.joint).Loose B n)
    (hn : 0 < n) (hB : B ∈ wide) : Runs (correctOne rocker) a fun r b => ∃ met, r = .ok met ∧
      (b.node g.joint).place ∈ zone ∧ b.node g.pin = a.node g.pin := by
  obtain ⟨z, rfl⟩ : ∃ z, B = 40 + z := ⟨B - 40, (add_sub_cancel 40 B).symm⟩
  obtain ⟨hsector, hhigh, hnear⟩ := hB
  rw [add_sub_cancel_left] at hsector hhigh hnear
  have hends : pivot ≠ g.joint := hpivot.ne_of_loose hjoint
  have hown : a.angle rocker = Complex.arg z := by
    have hvector : ((a.node pivot).vectorTo (a.node g.joint)).toComplex = z := by
      rw [Node.toComplex_vectorTo, hjoint.place, hpivot.place, add_sub_cancel_left]
    unfold Assembly.angle
    rw [hshape]
    exact congrArg Complex.arg hvector
  -- the joint is above the ground, so that the angle which the rocker wants is the one that it has
  have hwanted : a.wanted rocker (a.constraint rocker).angleTarget = .ok (some (Complex.arg z)) := by
    rw [hangle, wanted_ahead hfound hlevel, hown]
    · rw [hown]
      exact Complex.arg_nonneg_iff.mpr (by linarith)
    · rw [hown]
      exact Complex.arg_le_pi z
  obtain ⟨angleMet, e, hturn, hkept, hturned⟩ := anglePass_pinned (a.configOf rocker)
    (e := ⟨a.node pivot, a.node g.joint⟩) hpivot hjoint hn (Or.inl rfl)
    (((abs_advance_le z (Complex.arg z)).trans hnear).trans htuned.reach)
  rw [advance_arg] at hturned
  obtain ⟨lengthMet, e', hstretch, hzone⟩ :=
    lengthPass_rocker htuned (hkept ▸ hpivot) hturned (by linarith) hsector hhigh
  have hstretch : Pass.toward (lengthPass (a.configOf rocker)) (some 30) e = .ok lengthMet e' := hstretch
  refine (runs_correctOne_pair hcoherent hshape hends hwanted (by rw [hlength]; rfl) hturn hstretch).mono ?_
  rintro _ b ⟨rfl, hnode⟩
  refine ⟨_, rfl, ?_, ?_⟩
  · rw [hnode]
    rwa [Ends.put_second]
  · rw [hnode, Ends.put_other hne.symm hdistinct]

/-- A constraint that wants nothing moves nothing. -/
theorem runs_ground (hcoherent : Coherent made a) (hshape : (a.constraint ground).shape = .pair g.hub pivot .either)
    (hlength : (a.constraint ground).lengthTarget = none) (hangle : (a.constraint ground).angleTarget = none)
    (hne : g.hub ≠ pivot) : Runs (correctOne ground) a fun r b => ∃ met, r = .ok met ∧ b.node = a.node := by
  have hfree : a.wanted ground (a.constraint ground).angleTarget = .ok none := by
    rw [hangle]
    rfl
  have hturn : Pass.toward (anglePass (a.configOf ground) .either) none ⟨a.node g.hub, a.node pivot⟩ =
      .ok true ⟨a.node g.hub, a.node pivot⟩ := rfl
  have hstretch : Pass.toward (lengthPass (a.configOf ground)) none ⟨a.node g.hub, a.node pivot⟩ =
      .ok true ⟨a.node g.hub, a.node pivot⟩ := rfl
  refine (runs_correctOne_pair hcoherent hshape hne hfree (by rw [hlength]; rfl) hturn hstretch).mono ?_
  rintro _ b ⟨rfl, hnode⟩
  exact ⟨_, rfl, hnode.trans (Ends.put_self ..)⟩

/-! ### The four-bar linkage as a gear -/

/-- Where the joint is at the start, as seen from the end of the crank. -/
theorem joint_default : ∃ rise : ℝ, 0 ≤ rise ∧ rise ^ 2 = 8000 / 9 ∧
    FourBar.joint (⟨40, 10, 40, 30⟩ : FourBar ℝ) = .ok ⟨80 / 3, rise⟩ := by
  refine ⟨Real.sqrt (8000 / 9), Real.sqrt_nonneg _, Real.sq_sqrt (by norm_num), ?_⟩
  have hspan : FourBar.span (⟨40, 10, 40, 30⟩ : FourBar ℝ) = 30 := by
    unfold FourBar.span
    norm_num
  have hsquares : Scalar.divide ((30 : ℝ) * 30 + 40 * 40 - 30 * 30) (Scalar.two * 30) = .ok (80 / 3) := by
    rw [Scalar.divide_eq_ok, Scalar.two_real]
    norm_num
  have habove : Scalar.max ((40 : ℝ) * 40 - 80 / 3 * (80 / 3)) 0 = 8000 / 9 := by
    unfold Scalar.max
    rw [if_neg (by norm_num)]
    norm_num
  unfold FourBar.joint
  dsimp only
  rw [hspan, hsquares]
  change Except.ok (⟨80 / 3, Real.sqrt (Scalar.max ((40 : ℝ) * 40 - 80 / 3 * (80 / 3)) 0)⟩ : Vec ℝ) = _
  rw [habove]

theorem closes_default : FourBar.closes (⟨40, 10, 40, 30⟩ : FourBar ℝ) = true := by
  unfold FourBar.closes FourBar.span
  rw [Scalar.abs_real]
  norm_num

theorem swung_start {rise : ℝ} (hrise : 0 ≤ rise) (hsquare : rise ^ 2 = 8000 / 9) :
    Swung ((FourBar.rockerEnd ⟨40, 10, 40, 30⟩ ⟨80 / 3, rise⟩).place - 40) := by
  have hplace : (FourBar.rockerEnd (⟨40, 10, 40, 30⟩ : FourBar ℝ) ⟨80 / 3, rise⟩).place - 40 = ⟨-(10 / 3), rise⟩ := by
    apply Complex.ext
    · norm_num [Node.place, FourBar.rockerEnd, Node.create]
    · norm_num [Node.place, FourBar.rockerEnd, Node.create]
  have hhigh : 10 / 3 ≤ rise := (abs_le_of_sq_le_sq' (by linarith) hrise).2
  have hlength : ‖(⟨-(10 / 3), rise⟩ : ℂ)‖ = 30 := by
    rw [Complex.norm_eq_sqrt_sq_add_sq, hsquare]
    norm_num
  rw [hplace]
  refine ⟨⟨?_, ?_⟩, ?_⟩
  · change 0 ≤ -(10 / 3) + rise
    linarith
  · change 3 * -(10 / 3) ≤ rise
    linarith
  · rw [hlength]
    norm_num

/-- The configuration of its constraints, however the crank is driven. -/
theorem configOf {l : FourBar ℝ} {v : Vec ℝ} {upper : Combinator ℝ}
    (h : l.Drafted v g pivot rocker ground upper cfg made a) (hab : Driven g.driver a b) :
    ∀ c ∈ [g.driver, g.coupler, rocker, ground], b.configOf c = cfg := by
  intro c hc
  rw [← h.listed] at hc
  rw [hab.configOf, h.coherent.consistent.configOf hc, h.config]

/-- However the crank is driven, the ground is found by its identifier, and it is level. -/
theorem ground_found {l : FourBar ℝ} {v : Vec ℝ} {upper : Combinator ℝ} {key : Nat}
    (h : l.Drafted v g pivot rocker ground upper cfg made a) (hab : Driven g.driver a b) (hground : 0 ≤ l.ground) :
    b.lookUp rocker ⟨key, "ground", .angle⟩ = .ok ground ∧ b.angle ground = 0 := by
  constructor
  · refine Assembly.lookUp_ok_iff.mpr ⟨g.system, by rw [hab.owner, h.guide], ?_, rfl⟩
    refine ((hab.coherent made h.coherent).consistent.byId?_iff ..).mpr ⟨?_, by rw [hab.id, h.frame]⟩
    rw [hab.system, h.listed]
    exact .tail _ (.tail _ (.tail _ (.head _)))
  · have hhub : b.node g.hub = FourBar.hub := by rw [hab.base _ (by rw [h.hub]; rfl), h.hub]
    have hanchor : b.node pivot = l.anchor := by rw [hab.base _ (by rw [h.anchor]; rfl), h.anchor]
    have hvector : l.anchor.place - FourBar.hub.place = (l.ground : ℂ) := by
      apply Complex.ext
      · exact sub_zero _
      · exact sub_zero _
    unfold Assembly.angle
    rw [hab.shape, h.frame]
    change Complex.arg ((b.node pivot).place - (b.node g.hub).place) = 0
    rw [hanchor, hhub, hvector, Complex.arg_ofReal_of_nonneg hground]

/-- A four-bar linkage with the default lengths, as it is built. -/
theorem built {rise : ℝ} (hrise : 0 ≤ rise) (hsquare : rise ^ 2 = 8000 / 9) {key : Nat}
    (h : FourBar.Drafted ⟨40, 10, 40, 30⟩ ⟨80 / 3, rise⟩ g pivot rocker ground
      ⟨name, .around ⟨key, "ground", .angle⟩ 0 Scalar.pi⟩ cfg made a)
    (hguides : g.guides = [rocker, ground]) (htuned : Gear.Tuned cfg) :
    g.Built cfg 40 zone wide a ∧ g.Posed zone a ∧ (a.node g.pin).place = (10 : ℝ) * bearing 0 := by
  obtain ⟨⟨hhubpivot, -, -⟩, ⟨hpivotpin, -⟩, hpinjoint⟩ := h.apart
  obtain ⟨⟨hother, hdriverrocker, hdriverground⟩, -⟩ := h.distinct
  have hplace : (a.node g.pin).place = (10 : ℝ) * bearing 0 := by
    rw [h.pin]
    exact Node.place_level rfl rfl
  have hswung : Swung ((a.node g.joint).place - 40) := by
    rw [h.joint]
    exact swung_start hrise hsquare
  refine ⟨{
    constraints := ?_, config := h.config, tuned := htuned, coherent := ⟨made, h.coherent⟩
    driverShape := ?_, driverLength := ?_, couplerShape := ?_, couplerLength := ?_, couplerAngle := ?_
    other := hother.symm, hub := ?_, pin := ?_, joint := ?_, distinct := hpinjoint, guided := ?_ }, ⟨?_, hswung⟩, hplace⟩
  · rw [h.listed, Gear.constraints, hguides]
  · rw [h.driver]
  · rw [h.driver, Vec.length_eq_of_sq (x := 10) (by norm_num)]
    norm_num [Node.vectorTo, FourBar.hub, FourBar.pin, Node.create]
  · rw [h.coupler]
  · rw [h.coupler, Vec.length_eq_of_sq (x := 40) (by norm_num)]
    norm_num [Node.vectorTo, FourBar.pin, FourBar.rockerEnd, Node.create, hsquare]
  · rw [h.coupler]
  · rw [h.hub]
    exact ⟨rfl, rfl⟩
  · rw [h.pin]
    exact ⟨rfl, Node.mass_create ..⟩
  · rw [h.joint]
    exact ⟨rfl, Node.mass_create ..⟩
  -- what is special to it are its guides: the rocker brings the joint back to the zone, and the ground moves nothing
  · intro b hab B n hB hn hwide
    have hconfig := configOf h hab rocker (.tail _ (.tail _ (.head _)))
    obtain ⟨hfound, hlevel⟩ : b.lookUp rocker ⟨key, "ground", .angle⟩ = .ok ground ∧ b.angle ground = 0 :=
      ground_found h hab (by norm_num)
    have hfixed : (b.node pivot).Pinned 40 := by
      rw [hab.base _ (by rw [h.anchor]; rfl), h.anchor]
      exact ⟨rfl, rfl⟩
    have hlength : (b.constraint rocker).lengthTarget = some (.fixed 30) := by
      rw [hab.lengthTarget, h.guide, Vec.length_eq_of_sq (x := 30) (by norm_num)]
      norm_num [Node.vectorTo, FourBar.anchor, FourBar.rockerEnd, Node.create, hsquare]
    rw [hguides]
    have hguide := runs_rocker (hab.coherent made h.coherent) (by rw [hab.shape, h.guide])
      (by rw [hab.angleTarget _ hdriverrocker.symm, h.guide]) hlength hfound hlevel (by rwa [hconfig]) hfixed hpivotpin
      hpinjoint hB hn hwide
    refine runs_answersOf_cons ((hguide.and (driven_correctOne g.driver rocker b)).mono ?_)
    rintro _ b' ⟨⟨met, rfl, hzone, hrest⟩, hdriven⟩
    have hab' := trans_of _ hab hdriven
    have hrest' := runs_ground (hab'.coherent made h.coherent) (by rw [hab'.shape, h.frame])
      (by rw [hab'.lengthTarget, h.frame]) (by rw [hab'.angleTarget _ hdriverground.symm, h.frame]) hhubpivot
    refine ⟨met, rfl, runs_answersOf_cons (hrest'.mono ?_)⟩
    rintro _ b'' ⟨met', rfl, hnode⟩
    exact ⟨met', rfl, runs_pure (by rw [hnode]; exact ⟨hzone, hrest⟩)⟩
  · rw [hplace, norm_mul, norm_bearing, Complex.norm_real]
    norm_num

end Rock

end Linkage
