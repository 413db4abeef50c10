import Linkage.Proofs.Displacement
import Linkage.Proofs.Repetition

/-!
# Linkage.Proofs.Satisfaction — what it means that a run met every constraint

The answers of the last sweep are given one after the other while later constraints go on to move shared nodes.  In exact
arithmetic the answer of a pair means something at its own time (`Corrects.near`, `Corrects.offset_lt`), and each
registration after it that tugs at its nodes takes away three tolerances at most (`Sweeps.vectorTo_sub`).  So all pairs
are satisfied at once, up to a bound that counts these registrations (`correct_satisfies`).
-/

namespace Linkage

/-! ### The last sweep -/

section Sweep

variable {cfg : Config ℝ} {cfgs : ConstraintId → Config ℝ} {constraint : ConstraintId → Constraint ℝ}
  {node node' : NodeId → Node ℝ} {before after : List ConstraintId} {i : ConstraintId} {answers : List Bool}
  {first second : NodeId} {direction : Direction}

/-- The correction of one registration in a sweep that meets every constraint, and what the later ones do to the vector
between two nodes. -/
theorem Sweeps.correction (h : Sweeps cfgs constraint node (before ++ i :: after) answers node')
    (hmet : ∀ met ∈ answers, met = true) (hcfg : ∀ c ∈ before ++ i :: after, cfgs c = cfg)
    (hsturdy : ∀ c ∈ before ++ i :: after, Sturdy cfg (constraint c) node) (p q : NodeId) :
    ∃ mid mid', Corrects cfg (constraint i) mid true mid' ∧ Sturdy cfg (constraint i) mid ∧
      ‖((node' p).vectorTo (node' q)).toComplex - ((mid' p).vectorTo (mid' q)).toComplex‖ ≤
        3 * cfg.tolerance * after.countP fun c => (constraint c).Tugs p q := by
  obtain ⟨mid, earlier, later, rfl, hbefore, hafter⟩ := h.split
  cases hafter with
  | @cons _ mid' _ _ _ met answers' own rest =>
    have hmem (c : ConstraintId) (hc : c ∈ i :: after) : c ∈ before ++ i :: after := List.mem_append_right before hc
    obtain ⟨rfl, hlater⟩ := List.forall_mem_cons.mp fun met hm => hmet met (List.mem_append_right earlier hm)
    obtain ⟨hi, hrest⟩ := List.forall_mem_cons.mp fun c hc => hcfg c (hmem c hc)
    obtain ⟨hsturdyi, hsturdyrest⟩ := List.forall_mem_cons.mp fun c hc => hsturdy c (hmem c hc)
    rw [hi] at own
    exact ⟨mid, mid', own, hsturdyi.worked hbefore.worked, rest.vectorTo_sub hlater hrest
      (fun c hc => (hsturdyrest c hc).worked fun n => (hbefore.worked n).trans (own.worked n)) p q⟩

/-- After a sweep that meets every constraint, a pair has its fixed length up to one tolerance, and three for every later
registration that tugs at its nodes. -/
theorem Sweeps.near (h : Sweeps cfgs constraint node (before ++ i :: after) answers node')
    (hmet : ∀ met ∈ answers, met = true) (hcfg : ∀ c ∈ before ++ i :: after, cfgs c = cfg)
    (hsturdy : ∀ c ∈ before ++ i :: after, Sturdy cfg (constraint c) node)
    (hshape : (constraint i).shape = .pair first second direction) {target : ℝ}
    (htarget : (constraint i).lengthTarget = some (.fixed target)) :
    |((node' first).vectorTo (node' second)).length - target| <
      cfg.tolerance * (1 + 3 * after.countP fun c => (constraint c).Tugs first second) := by
  obtain ⟨mid, mid', own, -, hchange⟩ := h.correction hmet hcfg hsturdy first second
  have hown : |target - ((mid' first).vectorTo (mid' second)).length| < cfg.tolerance := own.near hshape htarget
  rw [Vec.length_eq_norm, abs_sub_comm] at hown
  rw [Vec.length_eq_norm]
  have hnorm := abs_norm_sub_norm_le ((node' first).vectorTo (node' second)).toComplex
    ((mid' first).vectorTo (mid' second)).toComplex
  have htriangle := abs_sub_le ‖((node' first).vectorTo (node' second)).toComplex‖
    ‖((mid' first).vectorTo (mid' second)).toComplex‖ target
  linarith

/-- After a sweep that meets every constraint, a pair is on the line of its fixed angle up to two tolerances, and three
for every later registration that tugs at its nodes. -/
theorem Sweeps.offset_lt (h : Sweeps cfgs constraint node (before ++ i :: after) answers node')
    (hmet : ∀ met ∈ answers, met = true) (hcfg : ∀ c ∈ before ++ i :: after, cfgs c = cfg)
    (hsturdy : ∀ c ∈ before ++ i :: after, Sturdy cfg (constraint c) node)
    (hshape : (constraint i).shape = .pair first second direction) {w : ℝ}
    (htarget : (constraint i).angleTarget = some (.fixed w)) :
    |offset ((node' first).vectorTo (node' second)).toComplex w| <
      cfg.tolerance * (2 + 3 * after.countP fun c => (constraint c).Tugs first second) := by
  obtain ⟨mid, mid', own, hsturdyi, hchange⟩ := h.correction hmet hcfg hsturdy first second
  have hown := own.offset_lt hsturdyi hshape htarget
  have hmoved := abs_offset_le (((node' first).vectorTo (node' second)).toComplex -
    ((mid' first).vectorTo (mid' second)).toComplex) w
  rw [offset_sub] at hmoved
  have htriangle := abs_sub_abs_le_abs_sub (offset ((node' first).vectorTo (node' second)).toComplex w)
    (offset ((mid' first).vectorTo (mid' second)).toComplex w)
  linarith

end Sweep

/-! ### Runs -/

namespace Act

/-- The constraints of a system are sturdy before each of converging sweeps, once their boosts are cleared. -/
theorem Converges.sturdy {st : Session ℝ} {s : SystemId} {k i : Nat} (hconsistent : st.assembly.Consistent)
    (hvalid : (st.assembly.config (st.assembly.system s).config).Valid)
    (hmass : ∀ n ∈ (st.assembly.system s).nodes, 0 < (st.assembly.node n).mass)
    (h : Converges s (st.assembly.system s).constraints k st) (hi : i ≤ k) :
    ∀ c ∈ (st.assembly.system s).constraints,
      Sturdy (st.assembly.config (st.assembly.system s).config) (st.assembly.constraint c)
        ((Act.swept (st.assembly.system s).constraints i st).assembly.clearBoosts
          (st.assembly.nodesOf (st.assembly.system s).constraints)).node := by
  intro c hc
  refine ⟨hvalid.2.1, hvalid.2.2, fun n hn => ?_⟩
  have hbody := (h.worked hi n).body
  have hpos : 0 < (st.assembly.node n).mass := hmass n (hconsistent.listed s c hc hn)
  have hmem : n ∈ st.assembly.nodesOf (st.assembly.system s).constraints := List.mem_flatMap.mpr ⟨c, hc, hn⟩
  rw [Assembly.node_clearBoosts, if_pos hmem]
  unfold Node.clearBoost
  split
  case isTrue hbase => exact Or.inl hbase
  case isFalse => exact Or.inr ⟨hpos.trans_eq hbody.1.symm, le_refl _⟩

/-- In any session over the reals that operations lead to, with positive masses and a valid configuration: after a run
that met every constraint, each pair has its fixed length up to one tolerance and is on the line of its fixed angle up to
two, and three more for every later registration that has a wanted angle and a node in common with it. -/
theorem correct_satisfies (ambient : Config ℝ) (journal : Journal ℝ) (ops : List (Operation ℝ)) (st : Session ℝ)
    (hst : st = run ops ⟨.empty ambient, journal⟩) (s : SystemId) (cfg : Config ℝ)
    (hcfg : cfg = st.assembly.config (st.assembly.system s).config) (hvalid : cfg.Valid)
    (hmass : ∀ n ∈ (st.assembly.system s).nodes, 0 < (st.assembly.node n).mass) (k : Nat) (hk : 1 ≤ k)
    (hanswer : (correct s).answer st = .ok k) (before after : List ConstraintId) (i : ConstraintId)
    (hconstraints : (st.assembly.system s).constraints = before ++ i :: after) (first second : NodeId)
    (direction : Direction) (hshape : (st.assembly.constraint i).shape = .pair first second direction) (v : Vec ℝ)
    (hv : v = (((correct s).after st).assembly.node first).vectorTo (((correct s).after st).assembly.node second)) :
    (∀ length, (st.assembly.constraint i).lengthTarget = some (.fixed length) → |v.length - length| <
      cfg.tolerance * (1 + 3 * after.countP fun c => (st.assembly.constraint c).Tugs first second)) ∧
    (∀ angle, (st.assembly.constraint i).angleTarget = some (.fixed angle) →
      |-v.x * Real.sin angle + v.y * Real.cos angle| <
        cfg.tolerance * (2 + 3 * after.countP fun c => (st.assembly.constraint c).Tugs first second)) := by
  subst hcfg
  have hconsistent : st.assembly.Consistent := by
    rw [hst]
    exact consistent_run (Assembly.consistent_empty ambient) ops
  obtain ⟨j, rfl⟩ : ∃ j, k = j + 1 := ⟨k - 1, by omega⟩
  obtain ⟨hcorrect, hnodes⟩ := (runs_correct st s).at_session (j + 1) hk
  obtain ⟨-, hconverges⟩ := hcorrect.mp hanswer
  have hnode : ((correct s).after st).assembly.node =
      (swept (st.assembly.system s).constraints (j + 1) st).assembly.node := by
    unfold Assembly.node
    rw [hnodes hanswer]
  have hsturdy := hconverges.sturdy hconsistent hvalid hmass (Nat.le_succ j)
  obtain ⟨answers, -, hmet, hsweeps⟩ := hconverges.sweeps (Nat.lt_succ_self j)
  have hconfig : ∀ c ∈ (st.assembly.system s).constraints,
      st.assembly.configOf c = st.assembly.config (st.assembly.system s).config := fun c hc => by
    unfold Assembly.configOf
    rw [(hconsistent.owner_iff s c).mp hc]
  rw [hnode] at hv
  rw [hconstraints] at hsturdy hsweeps hconfig hv
  subst hv
  -- from there on only the later constraints that tug at the pair can take it away again
  exact ⟨fun length hlength => hsweeps.near (hmet rfl) hconfig hsturdy hshape hlength,
    fun angle hangle => hsweeps.offset_lt (hmet rfl) hconfig hsturdy hshape hangle⟩

/-- The bar of the slanted system is too long by more than the tolerance after the run, for the sake of the level. -/
theorem correct_satisfies_slanted : (correct 0).answer slantedSession = .ok 1 ∧
    |((((correct 0).after slantedSession).assembly.node 0).vectorTo
      (((correct 0).after slantedSession).assembly.node 1)).length - 10| < 1 * (1 + 3 * (1 : Nat)) := by
  have hvalid : (⟨.int 256, 1, 1000000⟩ : Config ℝ).Valid := ⟨by decide, zero_lt_one, by norm_num⟩
  have hmass : ∀ n ∈ (slantedSession.assembly.system 0).nodes, 0 < (slantedSession.assembly.node n).mass := by
    intro n hn
    obtain rfl | rfl | rfl : n = 0 ∨ n = 1 ∨ n = 2 := by
      change n ∈ [0, 1, 2] at hn
      simpa using hn
    · exact zero_lt_one
    · exact zero_lt_one
    · exact zero_lt_one
  have hcount : [1].countP (fun c => (slantedSession.assembly.constraint c).Tugs 0 1) = 1 := rfl
  have hbounds := correct_satisfies ⟨.int 256, 1, 1000000⟩ (.empty Level.warning) slanted slantedSession rfl 0
    ⟨.int 256, 1, 1000000⟩ rfl hvalid hmass 1 (Nat.le_refl 1) slanted_correct.1 [] [1] 0 rfl 0 1 .either rfl _ rfl
  have hbound := hbounds.1 10 rfl
  rw [hcount] at hbound
  exact ⟨slanted_correct.1, hbound⟩

end Act

end Linkage
