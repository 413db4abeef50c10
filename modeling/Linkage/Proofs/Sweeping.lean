import Linkage.Proofs.Following

/-!
# Linkage.Proofs.Sweeping — what a sweep yields

A sweep yields one item for each step: its number, the angle that the driver was given, the sweeps that relaxing took, and
where the joints were then (`Mechanism.Yields`).  A step that is not met yields the coordinates of the item before, since
relaxing has put the nodes back, but the driver keeps the angle of the step, so that the next step starts from there.
Whatever steps are met and not met, this holds of each item (`stepsFrom_yields`), and base nodes never move
(`stepsFrom_driven`).
-/

namespace Linkage

open Act
open Assembly (Driven)

namespace Mechanism

variable {m : Mechanism} {steps : Int} {turns : ℝ} {a : Assembly ℝ}

/-! ### One step -/

/-- The drive angle of a step is its part of the turns. -/
theorem stepAngle_eq (hsteps : 1 ≤ steps) (turns : ℝ) (step : Int) :
    stepAngle steps turns step = .ok (2 * Real.pi * turns * step / steps) := by
  have hpos : (steps : ℝ) ≠ 0 := Int.cast_ne_zero.mpr (by omega)
  have hturn : (Scalar.turn : ℝ) = 2 * Real.pi := congrArg (· * Real.pi) one_add_one_eq_two
  have hdivide : Scalar.divide (Scalar.turn * turns * (step : ℝ)) (steps : ℝ) =
      .ok (2 * Real.pi * turns * step / steps) := by
    rw [Scalar.divide_eq_ok, hturn]
    exact ⟨hpos, rfl⟩
  exact hdivide

/-- What the item says that is yielded after `done` others by a step from `a` to `b`. -/
structure Yields (m : Mechanism) (steps : Int) (turns : ℝ) (done : Nat) (item : Step ℝ) (a b : Assembly ℝ) : Prop where
  step : item.step = done + 1
  phi : stepAngle steps turns (done + 1) = .ok item.phi
  within : item.iterations ≤ (a.config (a.system m.system).config).cap
  coords : item.coords = m.coords b
  held : item.iterations = 0 → m.coords b = m.coords a
  drive : (b.constraint m.driver).angleTarget = some (.fixed item.phi)

theorem coords_of_placed {b : Assembly ℝ} (h : ∀ n, Assembly.Placed a b n) : m.coords b = m.coords a := by
  unfold coords
  refine List.map_congr_left fun ⟨name, n⟩ _ => ?_
  obtain ⟨hx, hy⟩ := h n
  dsimp only
  rw [hx, hy]

/-- A step drives and relaxes, and yields an item unless it fails. -/
theorem runs_turnTo_yields (hcap : 1 ≤ (a.config (a.system m.system).config).cap) (steps : Int) (turns : ℝ) (done : Nat) :
    Runs (m.turnTo steps turns (done + 1)) a fun r b => Driven m.driver a b ∧
      ∀ item, r = .ok item → m.Yields steps turns done item a b := by
  refine runs_turnTo_of (fun fault _ => ⟨refl_of _ a, fun item hr => nomatch hr⟩) fun phi b hphi hdriven hnode hdrive => ?_
  -- driving leaves the configuration alone, so the cap is the one of the start
  have hlimit : b.config (b.system m.system).config = a.config (a.system m.system).config := by
    rw [hdriven.system, hdriven.config]
  have hcap' : 1 ≤ (b.config (b.system m.system).config).cap := by rwa [hlimit]
  have hrelax : Runs (correct m.system) b fun _ c => Driven m.driver b c := runs_correct_driven hcap'
  refine (((runs_correct ⟨b, .empty Level.warning⟩ m.system).and
    (runs_correct_placed ⟨b, .empty Level.warning⟩ m.system hcap')).and ((relaxed_correct m.system b).and hrelax)).mono ?_
  intro r c ⟨⟨hcounts, hplaced⟩, hrelaxed, hdriven'⟩
  refine ⟨trans_of _ hdriven hdriven', ?_⟩
  cases r with
  | error fault => exact fun item hr => nomatch hr
  | ok k =>
    rintro _ ⟨⟩
    refine ⟨rfl, hphi, ?_, rfl, fun hzero => ?_, ?_⟩
    · by_cases hzero : k = 0
      · exact hzero ▸ Nat.zero_le _
      · rw [← hlimit]
        exact ((hcounts k (Nat.one_le_iff_ne_zero.mpr hzero)).1.mp rfl).1
    -- a step that is not met has put the joints back to where driving had left them, which is where they were
    · have hcoords : m.coords b = m.coords a := by
        unfold coords
        rw [hnode]
      rw [coords_of_placed (hplaced (Or.inl (congrArg Except.ok hzero)))]
      exact hcoords
    · rw [hrelaxed.angleTarget]
      exact hdrive

/-! ### Steps in a row -/

section Row

variable {left done : Nat} {st : Session ℝ}

/-- Steps drive and relax, and do nothing else. -/
theorem stepsFrom_driven (hcap : 1 ≤ (st.assembly.config (st.assembly.system m.system).config).cap) (steps : Int)
    (turns : ℝ) (left done : Nat) :
    Driven m.driver st.assembly (m.stepsFrom steps turns left done st).2.assembly := by
  -- on the steps that are left, since each of them starts in the session that the one before leaves
  induction left generalizing done st with
  | zero => exact refl_of _ st.assembly
  | succ left ih =>
    have hturn := (runs_turnTo_yields hcap steps turns done).at_session.1
    unfold after at hturn
    cases hstep : m.turnTo steps turns (done + 1) st with
    | error fault st' =>
      rw [hstep] at hturn
      rw [stepsFrom_succ_error left hstep]
      exact hturn
    | ok first st' =>
      rw [hstep] at hturn
      rw [stepsFrom_succ_ok left hstep]
      have hcap' : 1 ≤ (st'.assembly.config (st'.assembly.system m.system).config).cap := by
        rwa [hturn.system, hturn.config]
      exact trans_of _ hturn (ih hcap' (done + 1))

/-- Each item is yielded by a step from where the steps before it have led. -/
theorem stepsFrom_yields (hcap : 1 ≤ (st.assembly.config (st.assembly.system m.system).config).cap) {i : Nat}
    {item : Step ℝ} (h : (m.stepsFrom steps turns left done st).1.items[i]? = some item) :
    m.Yields steps turns (done + i) item (m.stepsFrom steps turns i done st).2.assembly
      (m.stepsFrom steps turns (i + 1) done st).2.assembly := by
  induction left generalizing done st i with
  | zero => exact nomatch h
  | succ left ih =>
    obtain ⟨hdriven, hyields⟩ := (runs_turnTo_yields hcap steps turns done).at_session
    unfold answer at hyields
    unfold after at hdriven hyields
    cases hstep : m.turnTo steps turns (done + 1) st with
    | error fault st' =>
      rw [stepsFrom_succ_error left hstep] at h
      exact nomatch h
    | ok first st' =>
      rw [hstep] at hdriven hyields
      rw [stepsFrom_succ_ok left hstep] at h
      cases i with
      | zero =>
        obtain rfl : first = item := Option.some.inj h
        rw [stepsFrom_succ_ok 0 hstep]
        exact hyields first rfl
      | succ i =>
        have hcap' : 1 ≤ (st'.assembly.config (st'.assembly.system m.system).config).cap := by
          rwa [hdriven.system, hdriven.config]
        rw [stepsFrom_succ_ok i hstep, stepsFrom_succ_ok (i + 1) hstep, ← Nat.add_assoc, Nat.add_right_comm]
        exact ih hcap' h

end Row

/-- Take any mechanism whose configuration allows a sweep or more, and sweep it through any turns in one step or more.  If no
step fails, there are as many items as steps.  Item number `i + 1` has this number, its part of the turns as its angle, and
no more sweeps than the cap.  If it took none, its coordinates are those of the item before, or of the start if it is the
first.  When it is yielded, the driver wants its angle and the joints are at its coordinates.  The joints that are base nodes
have the coordinates that they had at the start. -/
theorem sweep_yields (m : Mechanism) (st : Session ℝ)
    (hcap : 1 ≤ (st.assembly.config (st.assembly.system m.system).config).cap) (steps : Int) (hsteps : 1 ≤ steps)
    (turns : ℝ) (items : List (Step ℝ)) (hitems : items = (m.sweep steps turns st).1.items) :
    ((m.sweep steps turns st).1.failure = none → (items.length : Int) = steps) ∧
      ∀ (i : Nat) (item : Step ℝ), items[i]? = some item →
        item.step = i + 1 ∧ item.phi = 2 * Real.pi * turns * (i + 1) / steps ∧
        item.iterations ≤ (st.assembly.config (st.assembly.system m.system).config).cap ∧
        (item.iterations = 0 → (m.coords st.assembly :: items.map Step.coords)[i]? = some item.coords) ∧
        ((m.stepsFrom steps turns (i + 1) 0 st).2.assembly.constraint m.driver).angleTarget = some (.fixed item.phi) ∧
        m.coords (m.stepsFrom steps turns (i + 1) 0 st).2.assembly = item.coords ∧
        ∀ (k : Nat) (name : String) (n : NodeId), m.joints[k]? = some (name, n) → (st.assembly.node n).base = true →
          item.coords[k]? = (m.coords st.assembly)[k]? := by
  have hsweep : m.sweep steps turns st = m.stepsFrom steps turns steps.toNat 0 st := if_neg (by omega)
  rw [hsweep] at hitems ⊢
  -- item `i` is yielded between the assemblies after `i` and after `i + 1` steps
  have hyields {i : Nat} {item : Step ℝ} (hi : items[i]? = some item) : m.Yields steps turns i item
      (m.stepsFrom steps turns i 0 st).2.assembly (m.stepsFrom steps turns (i + 1) 0 st).2.assembly := by
    rw [hitems] at hi
    have hitem := stepsFrom_yields hcap hi
    rwa [Nat.zero_add] at hitem
  refine ⟨fun hfine => ?_, fun i item hi => ?_⟩
  · rw [hitems, length_stepsFrom _ _ _ hfine]
    omega
  · have hitem := hyields hi
    have hdriven := stepsFrom_driven hcap steps turns i 0
    have hdriven' := stepsFrom_driven hcap steps turns (i + 1) 0
    have hphi : item.phi = 2 * Real.pi * turns * (i + 1) / steps := by
      have hangle := Except.ok.inj ((stepAngle_eq hsteps turns _).symm.trans hitem.phi)
      rw [← hangle]
      push_cast
      rfl
    have hlimit := hitem.within
    rw [hdriven.system, hdriven.config] at hlimit
    refine ⟨hitem.step, hphi, hlimit, fun hzero => ?_, hitem.drive, hitem.coords.symm, fun k name n hk hbase => ?_⟩
    · cases i with
      | zero =>
        rw [List.getElem?_cons_zero, hitem.coords, hitem.held hzero]
        rfl
      | succ i =>
        -- where the item before was yielded is where this step has started
        obtain ⟨before, hbefore⟩ : ∃ before, items[i]? = some before := by
          obtain ⟨hlt, -⟩ := List.getElem?_eq_some_iff.mp hi
          exact ⟨_, List.getElem?_eq_getElem (Nat.lt_of_succ_lt hlt)⟩
        rw [List.getElem?_cons_succ, List.getElem?_map, hbefore, hitem.coords, hitem.held hzero,
          ← (hyields hbefore).coords]
        rfl
    · have hnode := hdriven'.base n hbase
      rw [hitem.coords]
      unfold coords
      rw [List.getElem?_map, List.getElem?_map, hk, Option.map_some, Option.map_some]
      dsimp only
      rw [hnode]

/-- A slider-crank that is swept through one turn in one step yields that step, with the hub where it was. -/
theorem sweep_yields_once : ∃ m, (sliderCrank ⟨10, 30⟩).answer (newSession ⟨.int 256, 1 / 10, 1000000⟩) = .ok m ∧
    ∃ item, (m.sweep 1 1 ((sliderCrank ⟨10, 30⟩).after (newSession ⟨.int 256, 1 / 10, 1000000⟩))).1.items = [item] ∧
      item.step = (0 : Nat) + 1 ∧ item.iterations ≤ 256 ∧ item.coords[0]? = some ("A0", ⟨0, 0⟩) := by
  have hsin : Real.sin (2 * Real.pi * 1) = 0 := by rw [mul_one, Real.sin_two_pi]
  have hcoherent := coherent_newSession ⟨.int 256, 1 / 10, 1000000⟩
  -- through one whole turn the crank ends up straight, so its step is known to succeed
  obtain ⟨m, hanswer, item, hitems, -⟩ := sweep_straight hcoherent (by decide) (by norm_num [newSession, Assembly.empty])
    (by norm_num [newSession, Assembly.empty]) hsin
  obtain ⟨g, slider, -, hanswer', hdraft⟩ := (runs_sliderCrank hcoherent (l := ⟨10, 30⟩) (by norm_num)).at_session
  obtain rfl := Except.ok.inj (hanswer'.symm.trans hanswer)
  set st := (sliderCrank ⟨10, 30⟩).after (newSession ⟨.int 256, 1 / 10, 1000000⟩)
  have hlimit : (st.assembly.config (st.assembly.system g.system).config).cap = 256 := by
    rw [hdraft.config]
    rfl
  obtain ⟨-, hstep⟩ := sweep_yields _ st (hlimit ▸ by decide) 1 le_rfl 1 [item] hitems.symm
  obtain ⟨hnumber, -, hwithin, -, -, -, hbase⟩ := hstep 0 item rfl
  refine ⟨_, hanswer, item, hitems, hnumber, hlimit ▸ hwithin, ?_⟩
  rw [hbase 0 "A0" g.hub rfl (by rw [hdraft.hub]; rfl)]
  have hhub : (⟨(st.assembly.node g.hub).x, (st.assembly.node g.hub).y⟩ : Vec ℝ) = ⟨0, 0⟩ := by
    rw [hdraft.hub]
    rfl
  exact congrArg (fun v => some ("A0", v)) hhub

end Mechanism

end Linkage
