import Linkage.Proofs.Alike
import Mathlib.Logic.Function.Iterate
import Mathlib.Tactic.ByContra

/-!
# Linkage.Proofs.Convergence — what a run answers, in terms of whole sweeps

`bareSweep` is a sweep with no bookkeeping: it clears the boosts, corrects every constraint once in order and lists the
answers, and saves nothing.  `Converges` says that the `k`-th of the sweeps from a session is the first that meets every
constraint, and that nothing goes wrong until then.  A run answers `k` exactly if that is so within its cap
(`correct_eq_ok_iff`): the loop agrees with bare sweeps up to the states that it saves (`agree_sweep`), and one sweep of
the loop is one step of `Converges` (`converges_succ`).
-/

namespace Linkage

variable {α : Type} [Scalar α]

namespace Act

open Assembly (Alike)

/-! ### Bare sweeps -/

/-- Corrects every constraint of a list in order, and lists the answers. -/
def answersOf : List ConstraintId → Act α (List Bool)
  | [] => return []
  | c :: rest => do
    let met ← correctOne c
    return met :: (← answersOf rest)

/-- One sweep: every boost is cleared, and then every constraint is corrected once, whatever the earlier ones answer. -/
def bareSweep (constraints : List ConstraintId) : Act α (List Bool) := do
  change fun a => a.clearBoosts (a.nodesOf constraints)
  answersOf constraints

/-- The session after a number of sweeps. -/
def swept (constraints : List ConstraintId) (sweeps : Nat) (st : Session α) : Session α :=
  (after (bareSweep constraints))^[sweeps] st

/-- `k` sweeps of a system in a row fail nowhere and leave every position finite, and the last of them is the first in
which every constraint answers that it was met. -/
structure Converges (s : SystemId) (constraints : List ConstraintId) (k : Nat) (st : Session α) : Prop where
  pos : 1 ≤ k
  swept : ∀ i < k, ∃ answers, (bareSweep constraints).answer (swept constraints i st) = .ok answers ∧
    (i + 1 < k → false ∈ answers) ∧ (i + 1 = k → ∀ met ∈ answers, met = true)
  finite : ∀ i < k, (Act.swept constraints (i + 1) st).assembly.isFinite s

theorem swept_succ (constraints : List ConstraintId) (k : Nat) (st : Session α) :
    swept constraints (k + 1) st = swept constraints k ((bareSweep constraints).after st) :=
  Function.iterate_succ_apply ..

/-- The first of the sweeps is the last, or the others follow. -/
theorem converges_succ {s : SystemId} {constraints : List ConstraintId} {k : Nat} {st : Session α} :
    Converges s constraints (k + 1) st ↔ ∃ answers, (bareSweep constraints).answer st = .ok answers ∧
      ((bareSweep constraints).after st).assembly.isFinite s ∧
      if k = 0 then ∀ met ∈ answers, met = true
      else false ∈ answers ∧ Converges s constraints k ((bareSweep constraints).after st) := by
  constructor
  -- sweep `i` of those after the first is sweep `i + 1` of all
  · intro h
    obtain ⟨answers, hanswer, hunmet, hmet⟩ := h.swept 0 (Nat.succ_pos k)
    refine ⟨answers, hanswer, h.finite 0 (Nat.succ_pos k), ?_⟩
    split
    case isTrue hk =>
      subst hk
      exact hmet rfl
    case isFalse hk =>
      refine ⟨hunmet (by omega), by omega, fun i hi => ?_, fun i hi => ?_⟩
      · obtain ⟨later, hlater, hunmet', hmet'⟩ := h.swept (i + 1) (by omega)
        rw [swept_succ] at hlater
        exact ⟨later, hlater, fun hik => hunmet' (by omega), fun hik => hmet' (by omega)⟩
      · rw [← swept_succ]
        exact h.finite (i + 1) (by omega)
  · rintro ⟨answers, hanswer, hfinite, hrest⟩
    by_cases hk : k = 0
    · subst hk
      refine ⟨Nat.le_refl 1, fun i hi => ?_, fun i hi => ?_⟩
      · obtain rfl : i = 0 := by omega
        exact ⟨answers, hanswer, fun h => by omega, fun _ => hrest⟩
      · obtain rfl : i = 0 := by omega
        exact hfinite
    · rw [if_neg hk] at hrest
      obtain ⟨hunmet, h⟩ := hrest
      refine ⟨by omega, fun i hi => ?_, fun i hi => ?_⟩
      · cases i with
        | zero => exact ⟨answers, hanswer, fun _ => hunmet, fun h => absurd h (by omega)⟩
        | succ i =>
          obtain ⟨later, hlater, hunmet', hmet'⟩ := h.swept i (by omega)
          rw [swept_succ]
          exact ⟨later, hlater, fun hik => hunmet' (by omega), fun hik => hmet' (by omega)⟩
      · cases i with
        | zero => exact hfinite
        | succ i =>
          rw [swept_succ]
          exact h.finite i (by omega)

/-- The first of converging sweeps fails nowhere and leaves every position finite. -/
theorem Converges.first {s : SystemId} {constraints : List ConstraintId} {k : Nat} {st : Session α}
    (h : Converges s constraints k st) : (∃ answers, (bareSweep constraints).answer st = .ok answers) ∧
      ((bareSweep constraints).after st).assembly.isFinite s := by
  obtain ⟨answers, hanswer, -⟩ := h.swept 0 h.pos
  exact ⟨⟨answers, hanswer⟩, h.finite 0 h.pos⟩

/-- Where the first sweep misses a constraint, all depends on the sweeps after it. -/
theorem converges_succ_of_unmet {s : SystemId} {constraints : List ConstraintId} {st : Session α} {answers : List Bool}
    (hanswer : (bareSweep constraints).answer st = .ok answers)
    (hfinite : ((bareSweep constraints).after st).assembly.isFinite s) (hunmet : false ∈ answers) (k : Nat) :
    Converges s constraints (k + 1) st ↔ Converges s constraints k ((bareSweep constraints).after st) := by
  rw [converges_succ, hanswer]
  constructor
  · rintro ⟨_, ⟨⟩, -, hrest⟩
    split at hrest
    · exact nomatch hrest false hunmet
    · exact hrest.2
  · intro h
    have := h.pos
    refine ⟨answers, rfl, hfinite, ?_⟩
    rw [if_neg (by omega)]
    exact ⟨hunmet, h⟩

/-- The sweep that meets every constraint is the first that does, so there is only one. -/
theorem Converges.unique {s : SystemId} {constraints : List ConstraintId} {k k' : Nat} {st : Session α}
    (h : Converges s constraints k st) (h' : Converges s constraints k' st) : k = k' := by
  -- of two such numbers neither is larger: the sweep that ends the smaller would have to miss a constraint
  have hle {k k' : Nat} (h : Converges s constraints k st) (h' : Converges s constraints k' st) : k' ≤ k := by
    have hpos := h.pos
    by_contra hlt
    obtain ⟨answers, hanswer, -, hmet⟩ := h.swept (k - 1) (by omega)
    obtain ⟨answers', hanswer', hunmet, -⟩ := h'.swept (k - 1) (by omega)
    obtain rfl : answers = answers' := Except.ok.inj (hanswer.symm.trans hanswer')
    exact nomatch hmet (by omega) false (hunmet (by omega))
  have := hle h h'
  have := hle h' h
  omega

/-! ### A sweep of the loop is a bare one -/

/-- Preparing a system clears its boosts, up to the states that it saves. -/
theorem alike_prepareAll {a b : Assembly α} (hab : Alike a b) (first : Bool) (constraints : List ConstraintId) :
    Alike (a.clearBoosts (a.nodesOf constraints)) (b.prepareAll first constraints) := by
  have hclear (nodes : List NodeId) {a b : Assembly α} (hab : Alike a b) :
      Alike (a.clearBoosts nodes) (b.clearBoosts nodes) := by
    induction nodes generalizing a b with
    | nil => exact hab
    | cons n rest ih =>
      refine ih (a := a.setNode n _) (b := b.setNode n _) ?_
      rw [hab.node]
      exact hab.setNode n _
  -- saving leaves alike, and the boosts cleared constraint by constraint are those cleared all at once
  induction constraints generalizing a b with
  | nil => exact hab
  | cons c rest ih =>
    have hsaved : Alike a (if first then b.save c else b) := by
      cases first with
      | true => exact hab.trans ⟨(Assembly.relaxed_setSaved b c _).toSamePlan, rfl, rfl, rfl⟩
      | false => exact hab
    -- clearing boosts does not change which nodes the other constraints join
    have hnodes : (a.clearBoosts (a.constraint c).shape.nodes).nodesOf rest = a.nodesOf rest :=
      (Assembly.corrected_clearBoosts (List.Subset.refl _) a).samePlan.nodesOf rest
    have hsplit : a.clearBoosts (a.nodesOf (c :: rest)) = (a.clearBoosts (a.constraint c).shape.nodes).clearBoosts
        ((a.clearBoosts (a.constraint c).shape.nodes).nodesOf rest) := by
      rw [hnodes]
      exact List.foldl_append
    rw [hsplit]
    refine ih ?_
    rw [Assembly.prepare_eq, hab.shape]
    exact hclear _ hsaved

/-- What the loop keeps of the answers of a sweep is whether every constraint was met. -/
theorem agree_correctAll (constraints : List ConstraintId) {a b : Assembly α} (hab : Alike a b) :
    Agree (fun answers met => met = answers.all id) Alike (answersOf constraints) (correctAll constraints) a b := by
  induction constraints generalizing a b with
  | nil => exact agree_pure rfl hab
  | cons c rest ih =>
    refine agree_bind (blind_correctOne c a b hab) fun met met' a' b' hmet hab' => ?_
    refine agree_bind (ih hab') fun answers restMet a'' b'' hrest hab'' => ?_
    refine agree_pure ?_ hab''
    rw [← hmet, hrest, List.all_cons]
    rfl

/-- A sweep of the loop does what a bare sweep does, whether it saves states or not. -/
theorem agree_sweep (first : Bool) (constraints : List ConstraintId) {a b : Assembly α} (hab : Alike a b) :
    Agree (fun answers met => met = answers.all id) Alike (bareSweep constraints) (sweep first constraints) a b :=
  agree_bind (agree_change (alike_prepareAll hab first constraints)) fun _ _ _ _ _ h => agree_correctAll constraints h

/-! ### The loop -/

/-- What a verdict after `done` sweeps says about the next ones from a session: it counts them on if they converge
within the limit, and then the nodes are as these sweeps leave them. -/
structure Counts (s : SystemId) (constraints : List ConstraintId) (st : Session α) (left done : Nat)
    (r : Except (Fault α) Verdict) (b : Assembly α) : Prop where
  counted : ∀ n, r = .ok (.met n) ↔ ∃ k, n = done + k ∧ k ≤ left ∧ Converges s constraints k st
  nodes : ∀ k, r = .ok (.met (done + k)) → b.nodes = (swept constraints k st).assembly.nodes

section Counting

variable {s : SystemId} {constraints : List ConstraintId} {st : Session α} {left done : Nat}
  {r : Except (Fault α) Verdict} {b : Assembly α}

/-- Sweeps that do not converge are not counted. -/
theorem counts_of_never (hr : ∀ n, r ≠ .ok (.met n)) (hst : ∀ k ≤ left, ¬Converges s constraints k st) :
    Counts s constraints st left done r b := by
  refine ⟨fun n => ⟨fun h => absurd h (hr n), ?_⟩, fun k h => absurd h (hr _)⟩
  rintro ⟨k, -, hk, h⟩
  exact absurd h (hst k hk)

/-- Where the first sweep is the last, it is counted. -/
theorem counts_of_first (hst : Converges s constraints 1 st)
    (hb : b.nodes = (swept constraints 1 st).assembly.nodes) :
    Counts s constraints st (left + 1) done (.ok (.met (done + 1))) b := by
  constructor
  · intro n
    constructor
    · rintro ⟨⟩
      exact ⟨1, rfl, by omega, hst⟩
    · rintro ⟨k, rfl, -, hk⟩
      rw [hk.unique hst]
  · intro k hk
    simp only [Except.ok.injEq, Verdict.met.injEq] at hk
    obtain rfl : k = 1 := by omega
    exact hb

/-- Where the first sweep is not the last, the others are counted after it. -/
theorem counts_of_rest
    (hst : ∀ k, Converges s constraints (k + 1) st ↔ Converges s constraints k ((bareSweep constraints).after st))
    (h : Counts s constraints ((bareSweep constraints).after st) left (done + 1) r b) :
    Counts s constraints st (left + 1) done r b := by
  -- a count from the second sweep on is one more than a count of the sweeps after the first
  have hshift (n : Nat) : r = .ok (.met n) ↔
      ∃ k, n = done + k ∧ k ≤ left + 1 ∧ Converges s constraints k st := by
    rw [h.counted]
    constructor
    · rintro ⟨k, rfl, hk, hconverges⟩
      exact ⟨k + 1, by omega, by omega, (hst k).mpr hconverges⟩
    · rintro ⟨k, rfl, hk, hconverges⟩
      have := hconverges.pos
      obtain ⟨i, rfl⟩ : ∃ i, k = i + 1 := ⟨k - 1, by omega⟩
      exact ⟨i, by omega, by omega, (hst i).mp hconverges⟩
  refine ⟨hshift, fun k hr => ?_⟩
  obtain ⟨i, hi, -, hconverges⟩ := (hshift _).mp hr
  obtain rfl : k = i := by omega
  have := hconverges.pos
  obtain ⟨j, rfl⟩ : ∃ j, k = j + 1 := ⟨k - 1, by omega⟩
  rw [swept_succ]
  exact h.nodes j (by rw [hr, show done + (j + 1) = done + 1 + j by omega])

end Counting

/-- The loop counts the sweeps from every session that it agrees with. -/
theorem runs_sweepsFrom_counts (s : SystemId) (constraints : List ConstraintId) (left done : Nat) (st : Session α)
    {b : Assembly α} (hst : Alike st.assembly b) :
    Runs (sweepsFrom s constraints left done) b (Counts s constraints st left done) := by
  -- by induction on the sweeps left: the loop runs beside bare sweeps of `st`, with which it stays alike
  induction left generalizing done st b with
  | zero =>
    refine runs_pure (counts_of_never (fun n h => nomatch h) fun k hk h => ?_)
    have := h.pos
    omega
  | succ left ih =>
    refine runs_bind ((agree_sweep (done == 0) constraints hst).at_session.mono fun r b' hagree => ?_)
    obtain ⟨hmatch, hab⟩ := hagree
    cases hanswer : (bareSweep constraints).answer st with
    | error e =>
      rw [hanswer] at hmatch
      cases r with
      | ok met => exact hmatch.elim
      | error e' =>
        rw [then_error]
        refine counts_of_never (fun n h => nomatch h) fun k _ h => ?_
        obtain ⟨answers, hok⟩ := h.first.1
        exact nomatch hanswer.symm.trans hok
    | ok answers =>
      rw [hanswer] at hmatch
      cases r with
      | error e' => exact hmatch.elim
      | ok met =>
        have hall : met = answers.all id := hmatch
        rw [then_ok]
        refine runs_read ?_
        rw [hab.isFinite]
        by_cases hfinite : ((bareSweep constraints).after st).assembly.isFinite s
        · rw [if_neg (by simp [hfinite])]
          by_cases hmet : met = true
          · rw [if_pos hmet]
            refine runs_pure (counts_of_first ?_ hab.nodes)
            refine converges_succ.mpr ⟨answers, hanswer, hfinite, ?_⟩
            rw [if_pos rfl]
            simpa [hall] using hmet
          · rw [if_neg hmet]
            have hunmet : false ∈ answers := by simpa [hall] using hmet
            exact (ih (done + 1) _ hab).mono fun r c => counts_of_rest (converges_succ_of_unmet hanswer hfinite hunmet)
        · rw [if_pos (by simp [hfinite])]
          exact runs_after_report (runs_pure (counts_of_never (fun n h => nomatch h) fun k _ h => hfinite h.first.2))

/-! ### Whole runs -/

/-- What a run answers is what its loop counts, and a counted run keeps the nodes that the loop leaves. -/
theorem runs_correct (st : Session α) (s : SystemId) : Runs (correct s) st.assembly fun r b => ∀ k, 1 ≤ k →
    (r = .ok k ↔ k ≤ (st.assembly.config (st.assembly.system s).config).cap ∧
      Converges s (st.assembly.system s).constraints k st) ∧
    (r = .ok k → b.nodes = (swept (st.assembly.system s).constraints k st).assembly.nodes) := by
  refine runs_traced (runs_read ?_)
  refine runs_bind (runs_outcome ((runs_sweepsFrom_counts s (st.assembly.system s).constraints
    (st.assembly.config (st.assembly.system s).config).cap 0 st (.refl _)).mono fun r b h => ?_))
  have hcounted (k : Nat) : r = .ok (.met k) ↔ k ≤ (st.assembly.config (st.assembly.system s).config).cap ∧
      Converges s (st.assembly.system s).constraints k st := by
    simpa using h.counted k
  rw [then_ok]
  cases r with
  | error fault =>
    refine runs_after_rollback (runs_throw fun k _ => ?_)
    rw [← hcounted]
    simp
  | ok verdict =>
    cases verdict with
    | unmet done =>
      refine runs_after_rollback (runs_after_report (runs_pure fun k hk => ?_))
      rw [← hcounted]
      have : 0 ≠ k := by omega
      simp [this]
    | met done =>
      refine runs_after_report (runs_pure fun k _ => ?_)
      rw [← hcounted]
      refine ⟨by simp, ?_⟩
      rintro ⟨⟩
      exact h.nodes done (by rw [Nat.zero_add])

/-- The nodes after a run that met every constraint are as its sweeps leave them. -/
theorem node_correct {st : Session α} {s : SystemId} {k : Nat} (hk : 1 ≤ k) (hanswer : (correct s).answer st = .ok k) :
    ((correct s).after st).assembly.node = (swept (st.assembly.system s).constraints k st).assembly.node := by
  unfold Assembly.node
  rw [((runs_correct st s).at_session k hk).2 hanswer]

/-- A run answers `k` exactly if the `k`-th of the sweeps from its session is the first that meets every constraint,
nothing fails or becomes infinite until then, and `k` is within the cap; then the nodes are as these sweeps leave them.
If there is no such `k`, the run answers zero or fails. -/
theorem correct_eq_ok_iff (st : Session α) (s : SystemId) :
    (∀ k, 1 ≤ k → ((correct s).answer st = .ok k ↔
      k ≤ (st.assembly.config (st.assembly.system s).config).cap ∧
        Converges s (st.assembly.system s).constraints k st)) ∧
    (∀ k, 1 ≤ k → (correct s).answer st = .ok k → ∀ n,
      ((correct s).after st).assembly.node n =
        (swept (st.assembly.system s).constraints k st).assembly.node n) ∧
    ((¬∃ k, 1 ≤ k ∧ k ≤ (st.assembly.config (st.assembly.system s).config).cap ∧
        Converges s (st.assembly.system s).constraints k st) →
      (correct s).answer st = .ok 0 ∨ ∃ fault, (correct s).answer st = .error fault) := by
  have h := (runs_correct st s).at_session
  refine ⟨fun k hk => (h k hk).1, fun k hk hanswer n => ?_, fun hnone => ?_⟩
  · unfold Assembly.node
    rw [(h k hk).2 hanswer]
  · cases hanswer : (correct s).answer st with
    | error fault => exact Or.inr ⟨fault, rfl⟩
    | ok k =>
      by_cases hk : k = 0
      · exact Or.inl (by rw [hk])
      · have hpos : 1 ≤ k := by omega
        exact absurd ⟨k, hpos, ((h k hpos).1.mp hanswer)⟩ hnone

end Act

end Linkage
