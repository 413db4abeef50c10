import Linkage.Proofs.Closing

/-!
# Linkage.Proofs.Starting — mechanisms start solved

A ready-made mechanism is built with its joints where its constraints want them, whatever its lengths.  The bars want the
lengths that they are drawn with, and the crank lies where its driver wants it.  The rocker wants an angle that it finds
through the ground, which is made after it; as long as the joint is not below the ground, that is the angle it has.  So
every constraint is at rest, and the first run of the solver is a single sweep that moves nothing (`mechanism_starts`).
-/

namespace Linkage

open Act
open Assembly (Coherent Still)
open Mechanism (FourBar SliderCrank fourBar sliderCrank)

/-- A mechanism that is solved: the next run of the solver takes one sweep, and moves no node. -/
structure Mechanism.Solved (m : Mechanism) (st : Session ℝ) : Prop where
  answer : (correct m.system).answer st = .ok 1
  still : ∀ n, (((correct m.system).after st).assembly.node n).place = (st.assembly.node n).place

/-- A mechanism whose constraints are at rest is solved. -/
theorem Mechanism.solved_of_resting {m : Mechanism} {st : Session ℝ} {made : List Reference} {cfg : Config ℝ}
    (h : Coherent made st.assembly) (hconfig : st.assembly.config (st.assembly.system m.system).config = cfg)
    (hvalid : cfg.Valid) (hr : ∀ c ∈ (st.assembly.system m.system).constraints, st.assembly.Rests c) : m.Solved st := by
  have hcap : 1 ≤ (st.assembly.config (st.assembly.system m.system).config).cap := by
    rw [hconfig]
    exact hvalid.1
  obtain ⟨hanswer, hstill⟩ := (runs_correct_resting h hcap hr).at_session
  exact ⟨hanswer, hstill⟩

theorem dist_level {x x' : ℝ} (h : x ≤ x') : dist (⟨x, 0⟩ : Vec ℝ).toComplex (⟨x', 0⟩ : Vec ℝ).toComplex = x' - x := by
  have hlevel : (⟨x', 0⟩ : Vec ℝ).toComplex - (⟨x, 0⟩ : Vec ℝ).toComplex = (x' - x : ℝ) := by
    apply Complex.ext
    · rfl
    · exact sub_zero _
  rw [dist_comm, Complex.dist_eq, hlevel, Complex.norm_of_nonneg (sub_nonneg.mpr h)]

/-! ### The four-bar linkage -/

section FourBar

variable {l : FourBar ℝ} {v : Vec ℝ} {g : Gear} {pivot : NodeId} {rocker ground : ConstraintId} {name : Label ℝ} {key : Nat}
  {cfg : Config ℝ} {made : List Reference} {a : Assembly ℝ}

/-- The rocker of a four-bar linkage as it is built, with the joint not below the ground, wants the angle it has. -/
theorem wanted_rocker (h : l.Drafted v g pivot rocker ground ⟨name, .around ⟨key, "ground", .angle⟩ 0 Scalar.pi⟩ cfg made a)
    (hground : 0 ≤ l.ground) (habove : 0 ≤ v.y) {b : Assembly ℝ} (hb : Still a b) :
    b.wanted rocker (b.constraint rocker).angleTarget = .ok (some (b.angle rocker)) := by
  obtain ⟨hfound, hlevel⟩ : a.lookUp rocker ⟨key, "ground", .angle⟩ = .ok ground ∧ a.angle ground = 0 :=
    Rock.ground_found h (refl_of _ a) hground
  have hown : b.angle rocker = Complex.arg ((l.rockerEnd v).place - l.anchor.place) := by
    rw [hb.angle]
    unfold Assembly.angle
    rw [h.guide, ← h.joint, ← h.anchor]
    rfl
  -- the joint is not below the ground, so that the angle of the rocker is between zero and half a turn
  have hhigh : 0 ≤ ((l.rockerEnd v).place - l.anchor.place).im := by
    show 0 ≤ v.y - 0
    rwa [sub_zero]
  rw [hb.constraint, h.guide]
  rw [← hb.samePlan.lookUp] at hfound
  rw [← hb.angle] at hlevel
  refine Rock.wanted_ahead hfound hlevel ?_ ?_
  · rw [hown]
    exact Complex.arg_nonneg_iff.mpr hhigh
  · rw [hown]
    exact Complex.arg_le_pi _

/-- Every constraint of a four-bar linkage as it is built is at rest. -/
theorem rests_fourBar
    (h : l.Drafted v g pivot rocker ground ⟨name, .around ⟨key, "ground", .angle⟩ 0 Scalar.pi⟩ cfg made a)
    (htolerance : 0 < cfg.tolerance) (hcrank : 0 ≤ l.crank) (hground : 0 ≤ l.ground) (habove : 0 ≤ v.y)
    (hwithin : l.crank ≤ cfg.reach) (hrocker : ‖(l.rockerEnd v).place - l.anchor.place‖ ≤ cfg.reach) :
    ∀ c ∈ (a.system g.system).constraints, a.Rests c := by
  obtain ⟨⟨hhubpivot, hhubpin, -⟩, ⟨-, hpivotjoint⟩, hpinjoint⟩ := h.apart
  have hhub : (a.node g.hub).Heavy := by
    rw [h.hub]
    exact Node.heavy_create ..
  have hanchor : (a.node pivot).Heavy := by
    rw [h.anchor]
    exact Node.heavy_create ..
  have hpin : (a.node g.pin).Heavy := by
    rw [h.pin]
    exact Node.heavy_create ..
  have hjoint : (a.node g.joint).Heavy := by
    rw [h.joint]
    exact Node.heavy_create ..
  have hconfig := Rock.configOf h (refl_of _ a)
  rw [h.listed]
  intro c hc
  have htolerance : 0 < (a.configOf c).tolerance := by rwa [hconfig c hc]
  have hreach : (a.configOf c).reach = cfg.reach := by rw [hconfig c hc]
  rw [List.mem_cons, List.mem_cons, List.mem_cons, List.mem_singleton] at hc
  obtain rfl | rfl | rfl | rfl := hc
  · -- the driver wants the crank on the x-axis, where it is
    have hlevel : (a.node g.pin).place - (a.node g.hub).place = l.crank := by
      rw [h.pin, h.hub]
      exact Complex.ext (sub_zero _) (sub_zero _)
    refine Assembly.Settled.rests ⟨g.hub, g.pin, .either, by rw [h.driver], hhubpin, ⟨hhub, hpin⟩, htolerance, ?_, ?_⟩
    · rw [h.driver, hlevel, hreach]
      rintro _ ⟨⟩
      exact ⟨0, rfl, offset_of_straight (Complex.ofReal_im _) Real.sin_zero, Or.inl rfl, norm_level_le hcrank hwithin⟩
    · rw [h.driver, ← Node.toComplex_vectorTo, ← Vec.length_eq_norm, h.hub, h.pin]
      rintro _ ⟨⟩
      rfl
  · refine Assembly.Settled.rests ⟨g.pin, g.joint, .either, by rw [h.coupler], hpinjoint, ⟨hpin, hjoint⟩, htolerance, ?_, ?_⟩
    · rw [h.coupler]
      rintro _ ⟨⟩
    · rw [h.coupler, ← Node.toComplex_vectorTo, ← Vec.length_eq_norm, h.pin, h.joint]
      rintro _ ⟨⟩
      rfl
  · refine Assembly.rests_of_own (by rw [h.guide]) hpivotjoint ⟨hanchor, hjoint⟩ htolerance ?_ ?_ ?_
    · rw [h.joint, h.anchor, hreach]
      exact hrocker
    · rw [h.guide, ← Node.toComplex_vectorTo, ← Vec.length_eq_norm, h.anchor, h.joint]
      rintro _ ⟨⟩
      rfl
    · intro b hb
      exact wanted_rocker h hground habove hb
  · refine Assembly.Settled.rests ⟨g.hub, pivot, .either, by rw [h.frame], hhubpivot, ⟨hhub, hanchor⟩, htolerance, ?_, ?_⟩
    · rw [h.frame]
      rintro _ ⟨⟩
    · rw [h.frame]
      rintro _ ⟨⟩

/-- A four-bar linkage that is built starts solved. -/
theorem fourBar_starts {st : Session ℝ} (hcoherent : Coherent made st.assembly) (hvalid : st.assembly.ambient.Valid)
    (hcrank : 0 ≤ l.crank) (hlonger : l.crank < l.ground) (h : l.Bridged) (hwithin : l.crank ≤ st.assembly.ambient.reach)
    (hrocker : l.rocker ≤ st.assembly.ambient.reach) : ∃ m A₀ B₀ A B, (fourBar l).answer st = .ok m ∧
      m.coords ((fourBar l).after st).assembly = [("A0", A₀), ("B0", B₀), ("A", A), ("B", B)] ∧ l.Joined A₀ B₀ A B ∧
      m.Solved ((fourBar l).after st) := by
  have hspan : l.span ≠ 0 := (sub_pos.mpr hlonger).ne'
  obtain ⟨v, hv, habove, hcoupler, hrocker'⟩ := FourBar.joint_eq h hspan
  obtain ⟨g, pivot, rocker, ground, name, key, -, hanswer, hdraft⟩ :=
    (runs_fourBar hcoherent (FourBar.closes_iff.mpr h) hv).at_session
  have hlength : ‖(l.rockerEnd v).place - l.anchor.place‖ ≤ st.assembly.ambient.reach := by
    have hjoined := (FourBar.joined habove hcoupler hrocker').rocker
    rw [dist_comm, Complex.dist_eq] at hjoined
    exact hjoined.trans_le hrocker
  have hrests := rests_fourBar hdraft hvalid.2.1 hcrank (hcrank.trans hlonger.le) habove hwithin hlength
  exact ⟨_, _, _, _, _, hanswer, hdraft.coords, FourBar.joined habove hcoupler hrocker',
    Mechanism.solved_of_resting hdraft.coherent hdraft.config hvalid hrests⟩

end FourBar

/-! ### The slider-crank -/

/-- A slider-crank that is built starts solved. -/
theorem sliderCrank_starts {l : SliderCrank ℝ} {made : List Reference} {st : Session ℝ}
    (hcoherent : Coherent made st.assembly) (hvalid : st.assembly.ambient.Valid) (hcrank : 0 ≤ l.crank)
    (hlonger : l.crank < l.coupler) (hwithin : l.crank + l.coupler ≤ st.assembly.ambient.reach) :
    ∃ m A₀ A B, (sliderCrank l).answer st = .ok m ∧
      m.coords ((sliderCrank l).after st).assembly = [("A0", A₀), ("A", A), ("B", B)] ∧
      dist A₀.toComplex A.toComplex = l.crank ∧ dist A.toComplex B.toComplex = l.coupler ∧ 0 < B.x ∧ B.y = 0 ∧
      m.Solved ((sliderCrank l).after st) := by
  obtain ⟨g, slider, -, hanswer, hdraft⟩ := (runs_sliderCrank hcoherent (not_le.mpr hlonger)).at_session
  have hcoupler : 0 < l.coupler := hcrank.trans_lt hlonger
  have hsettled := settled_of_straight hdraft hcrank hcoupler hvalid.2.1 hwithin (refl_of _ _) rfl
    (by rw [hdraft.driver]) Real.sin_zero
  refine ⟨_, ⟨0, 0⟩, ⟨l.crank, 0⟩, ⟨l.crank + l.coupler, 0⟩, hanswer, ?_, ?_, ?_, ?_, rfl,
    Mechanism.solved_of_resting hdraft.coherent hdraft.config hvalid fun c hc => (hsettled c hc).rests⟩
  · simp only [Mechanism.coords, List.map_cons, List.map_nil, hdraft.hub, hdraft.pin, hdraft.joint]
    rfl
  · rw [dist_level hcrank, sub_zero]
  · rw [dist_level (by linarith), add_sub_cancel_left]
  · show 0 < l.crank + l.coupler
    linarith

/-! ### Both mechanisms -/

/-- Both ready-made mechanisms start solved, in every session with a valid ambient configuration: for every four-bar linkage
whose lengths close over a ground longer than the crank, and every slider-crank with a coupler longer than the crank, within
reach, building succeeds, the joints are where the lengths put them, and the first run of the solver takes one sweep and
moves no node.  The lengths may be on the border, where coupler and rocker are in line. -/
theorem mechanism_starts (ambient : Config ℝ) (journal : Journal ℝ) (ops : List (Operation ℝ))
    (hgenuine : Genuine [] ops ⟨.empty ambient, journal⟩) (st : Session ℝ) (hst : st = run ops ⟨.empty ambient, journal⟩)
    (cfg : Config ℝ) (hcfg : cfg = st.assembly.ambient) (hvalid : cfg.Valid) :
    (∀ l : FourBar ℝ, 0 ≤ l.crank → l.crank < l.ground → |l.coupler - l.rocker| ≤ l.ground - l.crank →
      l.ground - l.crank ≤ l.coupler + l.rocker → l.crank ≤ cfg.reach → l.rocker ≤ cfg.reach →
      ∃ m A₀ B₀ A B, (fourBar l).answer st = .ok m ∧
        m.coords ((fourBar l).after st).assembly = [("A0", A₀), ("B0", B₀), ("A", A), ("B", B)] ∧
        dist A₀.toComplex A.toComplex = l.crank ∧ l.Joined A₀ B₀ A B ∧ m.Solved ((fourBar l).after st)) ∧
      ∀ l : SliderCrank ℝ, 0 ≤ l.crank → l.crank < l.coupler → l.crank + l.coupler ≤ cfg.reach →
        ∃ m A₀ A B, (sliderCrank l).answer st = .ok m ∧
          m.coords ((sliderCrank l).after st).assembly = [("A0", A₀), ("A", A), ("B", B)] ∧
          dist A₀.toComplex A.toComplex = l.crank ∧ dist A.toComplex B.toComplex = l.coupler ∧ 0 < B.x ∧ B.y = 0 ∧
          m.Solved ((sliderCrank l).after st) := by
  have hcoherent := coherent_run_empty hgenuine
  rw [← hst] at hcoherent
  subst hcfg
  constructor
  · intro l hcrank hlonger hleast hmost hwithin hrocker
    obtain ⟨m, A₀, B₀, A, B, hanswer, hcoords, hjoined, hsolved⟩ :=
      fourBar_starts hcoherent hvalid hcrank hlonger ⟨hleast, hmost⟩ hwithin hrocker
    refine ⟨m, A₀, B₀, A, B, hanswer, hcoords, ?_, hjoined, hsolved⟩
    rw [hjoined.hub, hjoined.pin, dist_level hcrank, sub_zero]
  · intro l hcrank hlonger hwithin
    exact sliderCrank_starts hcoherent hvalid hcrank hlonger hwithin

/-- Coupler and rocker in line over the ground, and the slider-crank with the default lengths. -/
theorem mechanism_starts_in_line :
    (∃ m A₀ B₀ A B, (fourBar ⟨40, 10, 60, 30⟩).answer (newSession ⟨.int 256, 1 / 10, 1000000⟩) = .ok m ∧
      m.coords ((fourBar ⟨40, 10, 60, 30⟩).after (newSession ⟨.int 256, 1 / 10, 1000000⟩)).assembly =
        [("A0", A₀), ("B0", B₀), ("A", A), ("B", B)] ∧ FourBar.Joined ⟨40, 10, 60, 30⟩ A₀ B₀ A B ∧
      m.Solved ((fourBar ⟨40, 10, 60, 30⟩).after (newSession ⟨.int 256, 1 / 10, 1000000⟩))) ∧
      ∃ m, (sliderCrank ⟨10, 30⟩).answer (newSession ⟨.int 256, 1 / 10, 1000000⟩) = .ok m ∧
        m.Solved ((sliderCrank ⟨10, 30⟩).after (newSession ⟨.int 256, 1 / 10, 1000000⟩)) := by
  have hvalid : (⟨.int 256, 1 / 10, 1000000⟩ : Config ℝ).Valid := ⟨by decide, by norm_num, by norm_num⟩
  have hlonger : (10 : ℝ) < 40 ∧ (10 : ℝ) < 30 := by norm_num
  have hclose : |(60 : ℝ) - 30| ≤ 40 - 10 ∧ (40 : ℝ) - 10 ≤ 60 + 30 := by norm_num
  have hwithin : (10 : ℝ) ≤ 1000000 ∧ (30 : ℝ) ≤ 1000000 ∧ (10 : ℝ) + 30 ≤ 1000000 := by norm_num
  obtain ⟨hfourBar, hsliderCrank⟩ := mechanism_starts ⟨.int 256, 1 / 10, 1000000⟩ (.empty Level.warning) [] trivial
    (newSession ⟨.int 256, 1 / 10, 1000000⟩) rfl _ rfl hvalid
  obtain ⟨m, A₀, B₀, A, B, hanswer, hcoords, -, hjoined, hsolved⟩ := hfourBar ⟨40, 10, 60, 30⟩ (Nat.ofNat_nonneg 10)
    hlonger.1 hclose.1 hclose.2 hwithin.1 hwithin.2.1
  obtain ⟨m', -, -, -, hanswer', -, -, -, -, -, hsolved'⟩ := hsliderCrank ⟨10, 30⟩ (Nat.ofNat_nonneg 10) hlonger.2
    hwithin.2.2
  exact ⟨⟨m, A₀, B₀, A, B, hanswer, hcoords, hjoined, hsolved⟩, m', hanswer', hsolved'⟩

end Linkage
