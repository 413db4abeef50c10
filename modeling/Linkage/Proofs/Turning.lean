import Linkage.Proofs.Cranks

/-!
# Linkage.Proofs.Turning — the crank while it is driven through turns

A step of a sweep drives the crank to an angle and relaxes.  A run that met every constraint has left the pin on the
drive line, on the side where it was before (`Built.runs_correct`); a run that did not has put it back.  From step to step
the pin of the crank is therefore where the last step that was met left it, and it changes sides exactly where a step turns
the drive by more than a quarter turn (`Built.stepsFrom_sided`).  If each step that is met turns the drive by less
(`Gentle`), the crank points along the drive and not against it (`Sided.follows`).
-/

namespace Linkage

open Act
open Assembly (Driven Placed)

/-- The pin was led along: it is on the drive line, about ten from the hub, and on the side where it was. -/
structure Led (phi : ℝ) (A A' : ℂ) : Prop where
  side : KeepsSide phi A A'
  line : ∃ t : ℝ, A' = t * bearing phi ∧ |10 - (|t|)| ≤ 1 / 10

/-- A crank that the drive takes on by less than a quarter turn is on the side where it was, as seen along the drive, and
one that it takes on by more is on the other. -/
theorem Led.turned {phi psi t : ℝ} {A' : ℂ} (h : Led phi (t * bearing psi) A') (ht : 1 ≤ |t|) :
    ∃ t' : ℝ, A' = t' * bearing phi ∧ 1 ≤ |t'| ∧ (Scalar.epsilon < Real.cos (phi - psi) → (0 < t' ↔ 0 < t)) ∧
      (Real.cos (phi - psi) < -Scalar.epsilon → (0 < t' ↔ ¬0 < t)) := by
  have hpos := (Scalar.Signs.epsilon_pos (α := ℝ))
  obtain ⟨t', rfl, hlength⟩ := h.line
  have hahead := h.side.ahead
  have hbehind := h.side.behind
  rw [advance_mul_bearing, advance_mul_bearing, sub_self, Real.cos_zero, mul_one] at hahead hbehind
  refine ⟨t', rfl, by linarith [(abs_le.mp hlength).2], fun hgentle => ?_, fun hsteep => ?_⟩
  -- whether the crank was ahead or behind, the drive line turns by too little to pass it
  · rcases le_abs.mp ht with ht | ht
    · have := hahead (by nlinarith)
      exact iff_of_true (by linarith) (by linarith)
    · have := hbehind (by nlinarith)
      exact iff_of_false (by linarith) (by linarith)
  · rcases le_abs.mp ht with ht | ht
    · have := hbehind (by nlinarith)
      exact iff_of_false (by linarith) (not_not.mpr (by linarith))
    · have := hahead (by nlinarith)
      exact iff_of_true (by linarith) (by linarith)

namespace Gear.Built

variable {g : Gear} {cfg : Config ℝ} {coupler phi : ℝ} {zone wide : Set ℂ} {a₀ a : Assembly ℝ}

/-! ### Runs -/

/-- What every sweep of a run keeps. -/
theorem swept (h : g.Built cfg coupler zone wide a₀) (hclear : Clearance coupler zone wide) (st : Session ℝ)
    (hab : Driven g.driver a₀ st.assembly)
    (hdrive : (st.assembly.constraint g.driver).angleTarget = some (.fixed phi)) (hposed : g.Posed zone st.assembly)
    (i : Nat) : Driven g.driver a₀ (Act.swept g.constraints i st).assembly ∧
      g.Posed zone (Act.swept g.constraints i st).assembly ∧
      KeepsSide phi (st.assembly.node g.pin).place ((Act.swept g.constraints i st).assembly.node g.pin).place := by
  -- on the sweeps: one sweep keeps the side only if the pin and the joint are where they are posed
  induction i with
  | zero => exact ⟨hab, hposed, keepsSide_refl ..⟩
  | succ i ih =>
    obtain ⟨hab', hposed', hside⟩ := ih
    have hdrive' : ((Act.swept g.constraints i st).assembly.constraint g.driver).angleTarget = some (.fixed phi) := by
      rwa [(corrected_swept g.constraints i st).toSameDesign.constraint]
    have hdriven := (driven_bareSweep g.driver g.constraints (Act.swept g.constraints i st).assembly).at_session
    obtain ⟨hposed'', hside', -⟩ := (h.runs_bareSweep hclear hab' hdrive' hposed').at_session
    rw [after_bareSweep] at hdriven hposed'' hside'
    exact ⟨trans_of _ hab' hdriven, hposed'', hside.trans hside'⟩

/-- Where sweeps converge, the last of them has met every constraint. -/
theorem led_of_converges (h : g.Built cfg coupler zone wide a₀) (hclear : Clearance coupler zone wide) {st : Session ℝ}
    (hab : Driven g.driver a₀ st.assembly)
    (hdrive : (st.assembly.constraint g.driver).angleTarget = some (.fixed phi)) (hposed : g.Posed zone st.assembly)
    {k : Nat} (hk : Converges g.system g.constraints (k + 1) st) : Led phi (st.assembly.node g.pin).place
      ((Act.swept g.constraints (k + 1) st).assembly.node g.pin).place := by
  obtain ⟨hab', hposed', hside⟩ := h.swept hclear st hab hdrive hposed k
  have hdrive' : ((Act.swept g.constraints k st).assembly.constraint g.driver).angleTarget = some (.fixed phi) := by
    rwa [(corrected_swept g.constraints k st).toSameDesign.constraint]
  obtain ⟨-, hside', hline⟩ := (h.runs_bareSweep hclear hab' hdrive' hposed').at_session
  obtain ⟨answers, hanswers, -, hmet⟩ := hk.swept k (Nat.lt_succ_self k)
  have hline := hline answers hanswers (hmet rfl)
  rw [after_bareSweep] at hside' hline
  exact ⟨hside.trans hside', hline⟩

/-- A run leads the pin along, or leaves pin and joint in their places. -/
theorem runs_correct (h : g.Built cfg coupler zone wide a₀) (hclear : Clearance coupler zone wide)
    (hab : Driven g.driver a₀ a) (hdrive : (a.constraint g.driver).angleTarget = some (.fixed phi))
    (hposed : g.Posed zone a) : Runs (correct g.system) a fun r b => g.Posed zone b ∧
      (r = .ok 0 → (b.node g.pin).place = (a.node g.pin).place) ∧
      ∀ k, r = .ok (k + 1) → Led phi (a.node g.pin).place (b.node g.pin).place := by
  intro j
  have hconstraints : (a.system g.system).constraints = g.constraints := by rw [hab.system, h.constraints]
  have hcap : 1 ≤ (a.config (a.system g.system).config).cap := by
    rw [hab.system, hab.config, h.config]
    exact h.tuned.cap
  have hplaced := (runs_correct_placed ⟨a, j⟩ g.system hcap).at_session
  have hback (hfailed : (correct g.system).answer ⟨a, j⟩ = .ok 0 ∨
      ∃ fault, (correct g.system).answer ⟨a, j⟩ = .error fault) (n : NodeId) :
      (((correct g.system).after ⟨a, j⟩).assembly.node n).place = (a.node n).place :=
    Complex.ext (hplaced hfailed n).1 (hplaced hfailed n).2
  have hstay (hfailed : (correct g.system).answer ⟨a, j⟩ = .ok 0 ∨
      ∃ fault, (correct g.system).answer ⟨a, j⟩ = .error fault) :
      g.Posed zone ((correct g.system).after ⟨a, j⟩).assembly :=
    ⟨by rw [hback hfailed]; exact hposed.pin, by rw [hback hfailed]; exact hposed.joint⟩
  cases hanswer : (correct g.system).answer ⟨a, j⟩ with
  | error fault => exact ⟨hstay (Or.inr ⟨fault, hanswer⟩), fun hr => (nomatch hr), fun k hr => (nomatch hr)⟩
  | ok k =>
    cases k with
    | zero => exact ⟨hstay (Or.inl hanswer), fun _ => hback (Or.inl hanswer) _, fun k hr => (nomatch hr)⟩
    | succ k =>
      have hnode := node_correct (Nat.succ_pos k) hanswer
      -- a run that does not fail has ended with a sweep that met the driver
      have hconverges := (((Act.runs_correct ⟨a, j⟩ g.system).at_session (k + 1) (Nat.succ_pos k)).1.mp hanswer).2
      rw [hconstraints] at hnode hconverges
      have hposed' := (h.swept hclear ⟨a, j⟩ hab hdrive hposed (k + 1)).2.1
      refine ⟨⟨?_, ?_⟩, fun hr => (nomatch hr), fun i _ => ?_⟩
      · rw [hnode]
        exact hposed'.pin
      · rw [hnode]
        exact hposed'.joint
      · rw [hnode]
        exact h.led_of_converges hclear hab hdrive hposed hconverges

/-! ### Steps -/

variable {m : Mechanism}

/-- A step that is met leads the pin along, and one that is not leaves it where it was. -/
theorem runs_turnTo (h : g.Built cfg coupler zone wide a₀) (hclear : Clearance coupler zone wide)
    (hdriver : m.driver = g.driver) (hsystem : m.system = g.system) (hab : Driven g.driver a₀ a)
    (hposed : g.Posed zone a) (steps : Int) (turns : ℝ) (step : Int) : Runs (m.turnTo steps turns step) a fun r b =>
      Driven g.driver a₀ b ∧ g.Posed zone b ∧ ∀ item, r = .ok item → item.coords = m.coords b ∧
        (item.iterations = 0 → (b.node g.pin).place = (a.node g.pin).place) ∧
        (0 < item.iterations → Led item.phi (a.node g.pin).place (b.node g.pin).place) := by
  refine runs_turnTo_of (fun fault _ => ⟨hab, hposed, fun item hr => nomatch hr⟩) fun phi b _ hdriven hnode hdrive => ?_
  rw [hdriver] at hdriven hdrive
  rw [hsystem]
  have hab' := trans_of _ hab hdriven
  have hposed' : g.Posed zone b := ⟨by rw [hnode]; exact hposed.pin, by rw [hnode]; exact hposed.joint⟩
  have hcap : 1 ≤ (b.config (b.system g.system).config).cap := by
    rw [hab'.system, hab'.config, h.config]
    exact h.tuned.cap
  have hrelax : Runs (correct g.system) b fun _ c => Driven g.driver b c := runs_correct_driven hcap
  refine ((h.runs_correct hclear hab' hdrive hposed').and hrelax).mono
    fun r c ⟨⟨hposed'', hback, hled⟩, hdriven'⟩ => ⟨trans_of _ hab' hdriven', hposed'', ?_⟩
  rw [hnode] at hback hled
  cases r with
  | error fault => exact fun item hr => nomatch hr
  | ok iterations =>
    rintro _ ⟨⟩
    refine ⟨rfl, fun hzero => hback (congrArg Except.ok hzero), fun hpos => ?_⟩
    obtain ⟨k, hk⟩ : ∃ k, iterations = k + 1 := ⟨_, (Nat.sub_add_cancel hpos).symm⟩
    exact hled k (congrArg Except.ok hk)

end Gear.Built

namespace Mechanism

/-- How far the joint of that name lies along the drive line, in a step. -/
noncomputable def Step.along (item : Step ℝ) (name : String) : Option ℝ :=
  (item.coords.lookup name).map fun A => A.x * Real.cos item.phi + A.y * Real.sin item.phi

/-- The joint of that name points along the drive from the origin, in a step. -/
def Step.Follows (item : Step ℝ) (name : String) : Prop := ∃ d, item.along name = some d ∧ 0 < d

/-- From the drive angle `psi` on, every step that is met turns the drive by less than a quarter turn from the last one
that was met. -/
def Gentle (psi : ℝ) : List (Step ℝ) → Prop
  | [] => True
  | item :: rest =>
    if item.iterations = 0 then Gentle psi rest
    else Scalar.epsilon < Real.cos (item.phi - psi) ∧ Gentle item.phi rest

/-- From the drive angle `psi` on, where the joint of that name is ahead of the origin or behind it, a step that is met
leaves it on its side if it turns the drive by less than a quarter turn from the last one that was met, and takes it to
the other if it turns the drive by more. -/
def Sided (name : String) (psi : ℝ) (ahead : Prop) : List (Step ℝ) → Prop
  | [] => True
  | item :: rest =>
    if item.iterations = 0 then Sided name psi ahead rest
    else ∃ d, item.along name = some d ∧ 1 ≤ |d| ∧ (Scalar.epsilon < Real.cos (item.phi - psi) → (0 < d ↔ ahead)) ∧
      (Real.cos (item.phi - psi) < -Scalar.epsilon → (0 < d ↔ ¬ahead)) ∧ Sided name item.phi (0 < d) rest

/-- Through gentle steps, a joint that points along the drive follows it. -/
theorem Sided.follows {name : String} {psi : ℝ} {ahead : Prop} {items : List (Step ℝ)}
    (h : Sided name psi ahead items) (hahead : ahead) (hgentle : Gentle psi items) :
    ∀ item ∈ items, 0 < item.iterations → item.Follows name := by
  induction items generalizing psi ahead with
  | nil => exact fun item hitem => absurd hitem List.not_mem_nil
  | cons first rest ih =>
    unfold Sided at h
    unfold Gentle at hgentle
    rw [List.forall_mem_cons]
    split at h
    case isTrue hzero =>
      rw [if_pos hzero] at hgentle
      exact ⟨fun hpos => absurd hzero hpos.ne', ih h hahead hgentle⟩
    case isFalse hmet =>
      rw [if_neg hmet] at hgentle
      obtain ⟨d, hd, -, hside, -, hrest⟩ := h
      have hfirst := (hside hgentle.1).mpr hahead
      exact ⟨fun _ => ⟨d, hd, hfirst⟩, ih hrest hfirst hgentle.2⟩

theorem lookup_coords {m : Mechanism} {name : String} {n : NodeId} (h : m.joints.lookup name = some n)
    (a : Assembly ℝ) : (m.coords a).lookup name = some ⟨(a.node n).x, (a.node n).y⟩ := by
  unfold coords
  -- the names alone are compared, so this is about any list of joints
  generalize m.joints = joints at h ⊢
  induction joints with
  | nil => exact nomatch h
  | cons joint rest ih =>
    obtain ⟨other, p⟩ := joint
    rw [List.map_cons, List.lookup_cons]
    rw [List.lookup_cons] at h
    cases hname : name == other with
    | true =>
      rw [hname] at h
      cases h
      rfl
    | false =>
      rw [hname] at h
      exact ih h

end Mechanism

open Mechanism (Sided)

namespace Gear.Built

variable {g : Gear} {cfg : Config ℝ} {coupler : ℝ} {zone wide : Set ℂ} {a₀ : Assembly ℝ} {m : Mechanism}

/-- Through any steps, the pin of the crank is on the drive line, and changes sides where a step turns the drive by more
than a quarter turn. -/
theorem stepsFrom_sided (h : g.Built cfg coupler zone wide a₀) (hclear : Clearance coupler zone wide)
    (hdriver : m.driver = g.driver) (hsystem : m.system = g.system) {name : String}
    (hname : m.joints.lookup name = some g.pin) (steps : Int) (turns : ℝ) (left done : Nat) {st : Session ℝ}
    (hab : Driven g.driver a₀ st.assembly) (hposed : g.Posed zone st.assembly) {psi t : ℝ}
    (hpin : (st.assembly.node g.pin).place = t * bearing psi) (ht : 1 ≤ |t|) :
    Sided name psi (0 < t) (m.stepsFrom steps turns left done st).1.items := by
  -- on the steps that are left; `psi` and `t` say where the last step that was met has put the pin
  induction left generalizing done st psi t with
  | zero => exact trivial
  | succ left ih =>
    have hturn := (h.runs_turnTo hclear hdriver hsystem hab hposed steps turns (done + 1)).at_session
    unfold Mechanism.stepsFrom
    unfold answer after at hturn
    cases hstep : m.turnTo steps turns (done + 1) st with
    | error fault st' => exact trivial
    | ok first st' =>
      simp only [hstep] at hturn ⊢
      obtain ⟨hab', hposed', hitem⟩ := hturn
      obtain ⟨hcoords, hback, hled⟩ := hitem first rfl
      rw [hpin] at hback hled
      unfold Sided
      split
      case isTrue hzero => exact ih (done + 1) hab' hposed' (hback hzero) ht
      case isFalse hmet =>
        obtain ⟨t', hpin', ht', hgentle, hsteep⟩ := (hled (Nat.pos_of_ne_zero hmet)).turned ht
        have hadvance : advance (st'.assembly.node g.pin).place first.phi = t' := by
          rw [hpin', advance_mul_bearing, sub_self, Real.cos_zero, mul_one]
        have halong : first.along name = some t' := by
          unfold Mechanism.Step.along
          rw [hcoords, Mechanism.lookup_coords hname]
          exact congrArg some hadvance
        exact ⟨t', halong, ht', hgentle, hsteep, ih (done + 1) hab' hposed' hpin' ht'⟩

/-- The same of a whole sweep. -/
theorem sweep_sided (h : g.Built cfg coupler zone wide a₀) (hclear : Clearance coupler zone wide)
    (hdriver : m.driver = g.driver) (hsystem : m.system = g.system) {name : String}
    (hname : m.joints.lookup name = some g.pin) {st : Session ℝ} (hab : Driven g.driver a₀ st.assembly)
    (hposed : g.Posed zone st.assembly) {psi t : ℝ} (hpin : (st.assembly.node g.pin).place = t * bearing psi)
    (ht : 1 ≤ |t|) (steps : Int) (turns : ℝ) : Sided name psi (0 < t) (m.sweep steps turns st).1.items := by
  unfold Mechanism.sweep
  split
  · exact trivial
  · exact h.stepsFrom_sided hclear hdriver hsystem hname steps turns _ _ hab hposed hpin ht

end Gear.Built

end Linkage
