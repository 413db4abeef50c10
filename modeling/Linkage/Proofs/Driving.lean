import Linkage.Proofs.Bodies
import Linkage.Proofs.Divisors
import Linkage.Proofs.Stepping

/-!
# Linkage.Proofs.Driving — what is left alone when a system is relaxed and driven

A sweep of a mechanism changes two things over and over: it assigns the wanted angle of one constraint, and it relaxes.
`Driven` says what both leave as it was, which is everything that a later correction reads except the places of nodes, their
boosts and that angle.  It is a preorder, so it holds from the start of a sweep to any later moment.  `runs_turnTo_of` is the
rule for one step of a sweep: what relaxing leads to from the moment when the angle is assigned.
-/

namespace Linkage

open Act

namespace Assembly

/-- `b` is `a` after relaxing, and after assigning angles to the driver: constraints are as they were up to saved states
and that angle, masses and base nodes are as they were, and the memory is as coherent as it was. -/
structure Driven (driver : ConstraintId) (a b : Assembly ℝ) : Prop where
  constraint : ∀ c, b.constraint c =
    { a.constraint c with saved := (b.constraint c).saved, angleTarget := (b.constraint c).angleTarget }
  angleTarget : ∀ c ≠ driver, (b.constraint c).angleTarget = (a.constraint c).angleTarget
  systems : b.systems = a.systems
  configs : b.configs = a.configs
  ambient : b.ambient = a.ambient
  mass : ∀ n, (b.node n).mass = (a.node n).mass
  base : ∀ n, (a.node n).base = true → b.node n = a.node n
  free : ∀ n, (a.node n).base = false → (b.node n).base = false
  coherent : ∀ made, Coherent made a → Coherent made b

variable {driver : ConstraintId} {a b c : Assembly ℝ}

instance (driver : ConstraintId) : IsPreorder (Assembly ℝ) (Driven driver) where
  refl a := ⟨fun _ => rfl, fun _ _ => rfl, rfl, rfl, rfl, fun _ => rfl, fun _ _ => rfl, fun _ h => h, fun _ h => h⟩
  trans a b c h h' := {
    constraint := fun d => by rw [h'.constraint d, h.constraint d]
    angleTarget := fun d hd => (h'.angleTarget d hd).trans (h.angleTarget d hd)
    systems := h'.systems.trans h.systems
    configs := h'.configs.trans h.configs
    ambient := h'.ambient.trans h.ambient
    mass := fun n => (h'.mass n).trans (h.mass n)
    base := fun n hbase => by
      have hb := h.base n hbase
      rw [h'.base n (by rwa [hb]), hb]
    free := fun n hfree => h'.free n (h.free n hfree)
    coherent := fun made hmade => h'.coherent made (h.coherent made hmade) }

namespace Driven

theorem shape (h : Driven driver a b) (d : ConstraintId) : (b.constraint d).shape = (a.constraint d).shape := by
  rw [h.constraint]

theorem id (h : Driven driver a b) (d : ConstraintId) : (b.constraint d).id = (a.constraint d).id := by
  rw [h.constraint]

theorem owner (h : Driven driver a b) (d : ConstraintId) : (b.constraint d).owner = (a.constraint d).owner := by
  rw [h.constraint]

theorem lengthTarget (h : Driven driver a b) (d : ConstraintId) :
    (b.constraint d).lengthTarget = (a.constraint d).lengthTarget := by rw [h.constraint]

theorem system (h : Driven driver a b) (s : SystemId) : b.system s = a.system s := by
  unfold Assembly.system
  rw [h.systems]

theorem config (h : Driven driver a b) (k : ConfigId) : b.config k = a.config k := by
  unfold Assembly.config
  rw [h.configs]

theorem configOf (h : Driven driver a b) (d : ConstraintId) : b.configOf d = a.configOf d := by
  unfold Assembly.configOf
  rw [h.owner, h.ambient]
  simp only [h.system, h.config]

theorem nodesOf (h : Driven driver a b) (cs : List ConstraintId) : b.nodesOf cs = a.nodesOf cs := by
  unfold Assembly.nodesOf
  simp only [h.shape]

end Driven

/-- Corrections drive nothing. -/
theorem driven_of_corrected {ns : List NodeId} (h : Corrected ns a b) (hnodes : ∀ n, (a.node n).Handled (b.node n)) :
    Driven driver a b where
  constraint d := by rw [h.toSameDesign.constraint]
  angleTarget d _ := by rw [h.toSameDesign.constraint]
  systems := h.systems
  configs := h.configs
  ambient := h.ambient
  mass n := (hnodes n).worked.body.1
  base n := (hnodes n).base
  free n hfree := (hnodes n).worked.body.2.1.trans hfree
  coherent made hmade := hmade.relaxed h.relaxed

end Assembly

namespace Act

open Assembly (Coherent Corrected Driven Tended)

variable {driver c : ConstraintId} {cs : List ConstraintId} {s : SystemId} {a : Assembly ℝ}

theorem driven_correctOne (driver c : ConstraintId) : Keeps (Driven driver) (correctOne c) := fun a =>
  ((runs_correctOne (List.Subset.refl _)).and (keeps_correctOne (List.mem_singleton_self c) a)).mono
    fun _ _ ⟨hcorrected, htended⟩ => Assembly.driven_of_corrected hcorrected htended.handled

theorem driven_clearBoosts (a : Assembly ℝ) (ns : List NodeId) : Driven driver a (a.clearBoosts ns) :=
  Assembly.driven_of_corrected (Assembly.corrected_clearBoosts (List.Subset.refl _) a) (Assembly.handled_clearBoosts a ns)

theorem driven_answersOf (driver : ConstraintId) (cs : List ConstraintId) : Keeps (Driven driver) (answersOf cs) := by
  induction cs with
  | nil => exact keeps_pure []
  | cons c rest ih => exact (driven_correctOne driver c).bind fun met => ih.bind fun answers => keeps_pure _

theorem driven_bareSweep (driver : ConstraintId) (cs : List ConstraintId) : Keeps (Driven driver) (bareSweep cs) :=
  (keeps_change fun a => driven_clearBoosts a _).bind fun _ => driven_answersOf driver cs

/-- Relaxing drives nothing. -/
theorem runs_correct_driven (hcap : 1 ≤ (a.config (a.system s).config).cap) :
    Runs (correct s) a fun _ b => Driven driver a b :=
  (((runs_correct_spares hcap).and (relaxed_correct s a)).and (keeps_sameBodies_correct s a)).mono
    fun _ _ ⟨⟨hspares, hrelaxed⟩, hbodies⟩ => {
      constraint := fun d => (hspares.constraint d).trans (by rw [hspares.angleTarget])
      angleTarget := fun d _ => hspares.angleTarget d
      systems := hspares.systems
      configs := hspares.configs
      ambient := hspares.ambient
      mass := fun n => (hbodies n).1
      base := hspares.base
      free := fun n hfree => (hbodies n).2.trans hfree
      coherent := fun made hmade => hmade.relaxed hrelaxed }

/-- Assigning the driver an angle drives it. -/
theorem driven_drive (a : Assembly ℝ) (c : ConstraintId) (angle : ℝ)
    (hcoherent : ∀ made, Coherent made a → Coherent made (a.drive c angle)) : Driven c a (a.drive c angle) where
  constraint d := by
    rw [Assembly.constraint_drive]
    split
    case isTrue hd => rw [hd]
    case isFalse => rfl
  angleTarget d hd := by rw [Assembly.constraint_drive, if_neg (Ne.symm hd)]
  systems := rfl
  configs := rfl
  ambient := rfl
  mass _ := rfl
  base _ _ := rfl
  free _ h := h
  coherent := hcoherent

/-- What a step leads to, in terms of what it leaves as it was. -/
theorem runs_turnTo_of {m : Mechanism} {steps step : Int} {turns : ℝ}
    {Q : Except (Fault ℝ) (Mechanism.Step ℝ) → Assembly ℝ → Prop}
    (hfail : ∀ fault, Mechanism.stepAngle steps turns step = .error fault → Q (.error fault) a)
    (hrelax : ∀ phi b, Mechanism.stepAngle steps turns step = .ok phi → Driven m.driver a b → b.node = a.node →
      (b.constraint m.driver).angleTarget = some (.fixed phi) →
      Runs (correct m.system) b fun r c => Q ((fun k => ⟨step, phi, k, m.coords c⟩) <$> r) c) :
    Runs (m.turnTo steps turns step) a Q := by
  refine runs_turnTo hfail fun phi hphi hcoherent => ?_
  refine hrelax phi _ hphi (driven_drive a m.driver phi hcoherent) rfl ?_
  rw [Assembly.constraint_drive, if_pos rfl]

end Act

end Linkage
