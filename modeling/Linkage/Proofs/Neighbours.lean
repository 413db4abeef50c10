import Linkage.Proofs.Atomicity
import Linkage.Proofs.SideBySide

/-!
# Linkage.Proofs.Neighbours — constraints next to each other that do not see each other

Two constraints that stand next to each other in the order of a system can be corrected in either order if neither sees a
node of the other: they share no node, no reference of theirs finds a constraint that joins a node of the other, and their
callables read none (`Overlooks`).  What one correction moves, the other does not read (`Abreast.aside`), so both orders
give both answers and the same nodes (`concur_swap`).  From one place in one sweep this passes to whole runs, also to those
that are rolled back, since what a node gets back depends on how often it is registered and not in which order
(`correct_swapped`).
-/

namespace Linkage

variable {α : Type}

/-- The target is no callable, or one that reads neither the nodes of a list nor how many readings came before. -/
def Target.Overlooks (ns : List NodeId) (t : Target α) : Prop :=
  t.IfCallable fun read =>
    ∀ v v' : Sight α, v'.owner = v.owner → (∀ n, n ∉ ns → v'.node n = v.node n) → read v' = read v

namespace Assembly

/-- Correcting `c` reads no node of `d`. -/
structure Overlooks (a : Assembly α) (c d : ConstraintId) : Prop where
  nodes : ∀ n ∈ (a.constraint c).shape.nodes, n ∉ (a.constraint d).shape.nodes
  references : ∀ t ∈ (a.constraint c).targets, ∀ r ∈ t.references, ∀ e, a.lookUp c r = .ok e →
    ∀ n ∈ (a.constraint e).shape.nodes, n ∉ (a.constraint d).shape.nodes
  callables : ∀ t ∈ (a.constraint c).targets, t.Overlooks (a.constraint d).shape.nodes

theorem Overlooks.samePlan {a a' : Assembly α} {c d : ConstraintId} (h : a.Overlooks c d) (ha : SamePlan a a') :
    a'.Overlooks c d where
  nodes := by
    rw [ha.shape, ha.shape]
    exact h.nodes
  references := by
    rw [ha.targets, ha.shape]
    intro t ht r hr e he
    rw [ha.lookUp] at he
    rw [ha.shape]
    exact h.references t ht r hr e he
  callables := by
    rw [ha.targets, ha.shape]
    exact h.callables

/-! ### Reordering -/

section Reorder

variable {a : Assembly α} {s : SystemId} {constraints : List ConstraintId} {made : List Reference}

/-- The assembly with the constraints of a system in another order. -/
def reorder (a : Assembly α) (s : SystemId) (constraints : List ConstraintId) : Assembly α :=
  a.setSystem s { a.system s with constraints := constraints }

theorem system_reorder (t : SystemId) : (a.reorder s constraints).system t =
    { a.system t with constraints := if s = t then constraints else (a.system t).constraints } := by
  unfold reorder
  rw [system_setSystem]
  by_cases hst : s = t
  · subst hst
    rw [if_pos rfl, if_pos rfl]
  · rw [if_neg hst, if_neg hst]

/-- In another order, a coherent assembly is as coherent. -/
theorem Coherent.reorder (h : Coherent made a) (hperm : constraints.Perm (a.system s).constraints) :
    Coherent made (a.reorder s constraints) := by
  have hmem (t : SystemId) (c : ConstraintId) :
      c ∈ ((a.reorder s constraints).system t).constraints ↔ c ∈ (a.system t).constraints := by
    rw [system_reorder]
    by_cases hst : s = t
    · subst hst
      rw [if_pos rfl]
      exact hperm.mem_iff
    · rw [if_neg hst]
  have hnodes (t : SystemId) : ((a.reorder s constraints).system t).nodes = (a.system t).nodes := by rw [system_reorder]
  -- identifiers are looked up in the index, which the order does not touch
  have hbyId? (t : SystemId) (id : String) : (a.reorder s constraints).byId? t id = a.byId? t id := by
    unfold byId?
    rw [system_reorder]
  refine ⟨⟨fun t => ?_, fun t c hc => ?_, fun t c => ?_, fun t c hc => ?_, fun t id c => ?_⟩, h.used, h.apart, h.cites,
    fun f hf => ?_⟩
  · rw [hnodes]
    exact h.consistent.nodup t
  · rw [hnodes]
    exact h.consistent.listed t c ((hmem t c).mp hc)
  · rw [hmem]
    exact h.consistent.owner_iff t c
  · exact h.consistent.made t c ((hmem t c).mp hc)
  · rw [hbyId?, hmem]
    exact h.consistent.byId?_iff t id c
  · obtain ⟨r, hr, hkey, hid, hhas⟩ := h.found f hf
    refine ⟨r, hr, hkey, ?_, hhas⟩
    rw [hbyId?]
    exact hid

end Reorder

end Assembly

variable [Scalar α]

theorem Target.Overlooks.respects {t : Target α} {ns : List NodeId} (h : t.Overlooks ns) (drift : Int) :
    t.Respects (.exact (· ∉ ns) drift) :=
  h.mono fun _ hread v v' howner _ hnode _ _ => hread v v' howner fun n hn => (hnode n hn).symm

/-- All nodes are the same, and as many readings of callables were seen. -/
def Comparison.same : Comparison α := .exact (fun _ => True) 0

/-- Any target has one value where all nodes and the count of readings are the same. -/
theorem Target.respects_same (t : Target α) : t.Respects .same := by
  refine ifCallable_of_forall (fun read v v' howner _ hnode _ hmoment => ?_) t
  have hsight : v' = v := by
    obtain ⟨node, owner, moment⟩ := v
    obtain ⟨node', owner', moment'⟩ := v'
    obtain rfl : node = node' := funext fun n => hnode n trivial
    obtain rfl : owner' = owner := howner
    have hsame : (moment' : Int) = moment + 0 := hmoment
    obtain rfl : moment' = moment := by omega
    rfl
  rw [hsight]

namespace Assembly

variable {a b a' b' : Assembly α} {c d : ConstraintId} {constraints : List ConstraintId}

/-- To a constraint that sees no node of `d`, corrections of `d` make no difference. -/
theorem Abreast.aside (h : Abreast .same constraints a b) (hc : c ∈ constraints)
    (hover : a.Overlooks c d) (ha : Corrected (a.constraint d).shape.nodes a a')
    (hb : Corrected (a.constraint d).shape.nodes b b') :
    Abreast (.exact (· ∉ (a.constraint d).shape.nodes) (b'.readings - a'.readings)) [c] a' b' where
  coherent := h.coherent.imp fun _ hmade => hmade.relaxed ha.relaxed
  coherent' := h.coherent'.imp fun _ hmade => hmade.relaxed hb.relaxed
  task e he := by
    obtain rfl := List.mem_singleton.mp he
    have htask := h.task e hc
    have haside : SameTask (.exact (· ∉ (a.constraint d).shape.nodes) (b'.readings - a'.readings)) e a b := {
      constraint := htask.constraint
      configOf := htask.configOf
      nodes := hover.nodes
      lookUp := htask.lookUp
      found := fun t ht r hr f hf => ⟨(htask.found t ht r hr f hf).1, hover.references t ht r hr f hf⟩
      callables := fun t ht => (hover.callables t ht).respects _ }
    exact haside.samePlan ha.samePlan hb.samePlan
  node n hn := by
    rw [ha.outside n hn, hb.outside n hn]
    exact h.node n trivial
  rest _ _ := trivial
  readings := by
    change (b'.readings : Int) = a'.readings + (b'.readings - a'.readings)
    omega

/-- Where two corrections that do not see each other were made in both orders, all nodes are the same in the end. -/
theorem Abreast.meeting {a₁ a₂ b₁ b₂ : Assembly α} {ns ms : List NodeId}
    (h : Abreast .same constraints a b) (hapart : ∀ n ∈ ns, n ∉ ms)
    (ha₁ : Corrected ns a a₁) (ha₂ : Corrected ms a₁ a₂) (hb₁ : Corrected ms b b₁) (hb₂ : Corrected ns b₁ b₂)
    (hab₁ : Abreast (.exact (· ∉ ns) (b.readings - a₁.readings)) [d] a₂ b₁)
    (hab₂ : Abreast (.exact (· ∉ ms) (b₁.readings - a.readings)) [c] a₁ b₂) :
    Abreast .same constraints a₂ b₂ := by
  refine h.relaxed (trans_of _ ha₁.relaxed ha₂.relaxed) (trans_of _ hb₁.relaxed hb₂.relaxed) (fun n _ => ?_)
    (fun _ _ => trivial) ?_
  · change a₂.node n = b₂.node n
    by_cases hn : n ∈ ns
    · rw [ha₂.outside n (hapart n hn)]
      exact hab₂.node n (hapart n hn)
    · rw [hb₂.outside n hn]
      exact hab₁.node n hn
  · have hstart : (b.readings : Int) = a.readings + 0 := h.readings
    have hsecond : (b₁.readings : Int) = a₂.readings + (b.readings - a₁.readings) := hab₁.readings
    have hfirst : (b₂.readings : Int) = a₁.readings + (b₁.readings - a.readings) := hab₂.readings
    change (b₂.readings : Int) = a₂.readings + 0
    omega

end Assembly

namespace Act

open Assembly (Abreast Corrected Relaxed)

variable {β : Type} {a b : Assembly α} {c d : ConstraintId} {constraints : List ConstraintId}

/-! ### One place in one sweep -/

/-- A correction that overlooks `d` does the same where corrections of `d` were made before it as where none were. -/
theorem runs_correctOne_aside {a' b' : Assembly α} (h : Abreast .same constraints a b) (hc : c ∈ constraints)
    (hover : a.Overlooks c d) (ha : Corrected (a.constraint d).shape.nodes a a')
    (hb : Corrected (a.constraint d).shape.nodes b b') : Runs (correctOne c) a' fun r a'' =>
      Corrected (a.constraint c).shape.nodes a' a'' ∧ Runs (correctOne c) b' fun r' b'' => Matches Eq r r' ∧
        Abreast (.exact (· ∉ (a.constraint d).shape.nodes) (b'.readings - a'.readings)) [c] a'' b'' ∧
        Corrected (a.constraint c).shape.nodes b' b'' := by
  have hmoves {o : Assembly α} (ho : (o.constraint c).shape = (a.constraint c).shape) :
      Runs (correctOne c) o fun _ o' => Corrected (a.constraint c).shape.nodes o o' :=
    runs_correctOne (by rw [ho]; exact List.Subset.refl _)
  have hshape : (a'.constraint c).shape = (a.constraint c).shape := by rw [ha.constraint]
  have hshape' : (b'.constraint c).shape = (a.constraint c).shape := by rw [hb.constraint, (h.task c hc).shape]
  have hagree := agree_correctOne (h.aside hc hover ha hb) (List.mem_singleton_self c)
  refine (Runs.and hagree (hmoves hshape)).mono fun r a'' ⟨hother, ha''⟩ => ⟨ha'', ?_⟩
  exact (hother.and (hmoves hshape')).mono fun r' b'' ⟨⟨hmatch, hab⟩, hb''⟩ => ⟨hmatch, hab, hb''⟩

/-- Corrections that do not see each other can be made in either order, whatever comes after them. -/
theorem concur_swap {T : β → β → Assembly α → Assembly α → Prop} {f g : Bool → Bool → Act α β}
    (h : Abreast .same constraints a b) (hc : c ∈ constraints) (hd : d ∈ constraints)
    (hcd : a.Overlooks c d) (hdc : a.Overlooks d c)
    (hf : ∀ x y a' b', Abreast .same constraints a' b' → Relaxed a a' →
      Concur (fun _ _ => True) T (f x y) (g x y) a' b') :
    Concur (fun _ _ => True) T (correctOne c >>= fun x => correctOne d >>= fun y => f x y)
      (correctOne d >>= fun y => correctOne c >>= fun x => g x y) a b := by
  -- the first correction here is the second there, wherever the other one leads
  have hfirst : Runs (correctOne c) a fun r a₁ => Corrected (a.constraint c).shape.nodes a a₁ ∧
      ∀ b₁, Corrected (a.constraint d).shape.nodes b b₁ → Runs (correctOne c) b₁ fun r' b₂ => Matches Eq r r' ∧
        Abreast (.exact (· ∉ (a.constraint d).shape.nodes) (b₁.readings - a.readings)) [c] a₁ b₂ ∧
        Corrected (a.constraint c).shape.nodes b₁ b₂ := fun j =>
    ⟨runs_correctOne (List.Subset.refl _) j, fun b₁ hb₁ => (runs_correctOne_aside h hc hcd (refl_of _ a) hb₁ j).2⟩
  refine runs_bind (hfirst.mono fun r a₁ ⟨ha₁, hagain⟩ => ?_)
  cases r with
  | error e =>
    -- if the first correction fails here, it fails as the second there, if that is reached
    rw [then_error]
    have hother : Runs (correctOne d) b fun _ b₁ => Corrected (a.constraint d).shape.nodes b b₁ :=
      runs_correctOne (by rw [(h.task d hd).shape]; exact List.Subset.refl _)
    refine runs_bind (hother.mono fun r' b₁ hb₁ => ?_)
    cases r' with
    | error e' => exact .error trivial
    | ok y =>
      rw [then_ok]
      refine runs_bind ((hagain b₁ hb₁).mono fun r'' b₂ ⟨hmatch, _⟩ => ?_)
      cases r'' with
      | error e' => exact .error trivial
      | ok x => exact hmatch.elim
  | ok x =>
    rw [then_ok]
    refine runs_bind ((runs_correctOne_aside h hd hdc ha₁ (refl_of _ b)).mono fun r a₂ ⟨ha₂, hearlier⟩ => ?_)
    cases r with
    | error e =>
      rw [then_error]
      refine runs_bind (hearlier.mono fun r' b₁ ⟨hmatch, _⟩ => ?_)
      cases r' with
      | error e' => exact .error trivial
      | ok y => exact hmatch.elim
    | ok y =>
      rw [then_ok]
      intro j
      refine runs_bind (hearlier.mono fun r' b₁ ⟨hmatch, hab₁, hb₁⟩ => ?_)
      cases r' with
      | error e' => exact hmatch.elim
      | ok y' =>
        rw [then_ok]
        refine runs_bind ((hagain b₁ hb₁).mono fun r'' b₂ ⟨hmatch', hab₂, hb₂⟩ => ?_)
        cases r'' with
        | error e' => exact hmatch'.elim
        | ok x' =>
          obtain rfl : y = y' := hmatch
          obtain rfl : x = x' := hmatch'
          have hwhole := h.meeting hcd.nodes ha₁ ha₂ hb₁ hb₂ hab₁ hab₂
          exact hf x y a₂ b₂ hwhole (trans_of _ ha₁.relaxed ha₂.relaxed) j

/-- A pass over the constraints of a system, with two of them in one order and in the other. -/
theorem concur_correctAll_swapped {before after : List ConstraintId} (h : Abreast .same constraints a b)
    (hsub : before ++ c :: d :: after ⊆ constraints) (hcd : a.Overlooks c d) (hdc : a.Overlooks d c) :
    Concur (fun _ _ => True) (fun met met' a' b' => met' = met ∧ Abreast .same constraints a' b')
      (correctAll (before ++ c :: d :: after)) (correctAll (before ++ d :: c :: after)) a b := by
  -- by induction on the constraints before the two, which are corrected in the same order
  induction before generalizing a b with
  | nil =>
    obtain ⟨hc, hsub⟩ := List.cons_subset.mp hsub
    obtain ⟨hd, hafter⟩ := List.cons_subset.mp hsub
    have hunfold (c d : ConstraintId) : correctAll (α := α) (c :: d :: after) =
        correctOne c >>= fun x => correctOne d >>= fun y => correctAll after >>= fun z => pure (x && (y && z)) := by
      simp only [correctAll, bind_assoc, pure_bind]
    rw [List.nil_append, List.nil_append, hunfold c d, hunfold d c]
    refine concur_swap h hc hd hcd hdc fun x y a' b' h' _ => ?_
    refine concur_bind (concur_of_agree (fun _ => trivial) (agree_correctAll_abreast h' hafter)) ?_
    rintro z z' a'' b'' ⟨hz, h''⟩
    refine concur_pure ⟨?_, h''⟩
    rw [hz, Bool.and_left_comm]
  | cons e before ih =>
    obtain ⟨he, hsub⟩ := List.cons_subset.mp hsub
    have hfirst := (concur_of_agree (F := fun _ _ => True) (fun _ => trivial) (agree_correctOne h he)).framed
      (relaxed_correctOne e) (relaxed_correctOne e)
    refine concur_bind hfirst ?_
    rintro met met' a' b' ⟨⟨hmet, h'⟩, ha, -⟩
    refine concur_bind (ih h' hsub (hcd.samePlan ha.toSamePlan) (hdc.samePlan ha.toSamePlan)) ?_
    rintro later later' a'' b'' ⟨hlater, h''⟩
    refine concur_pure ⟨?_, h''⟩
    rw [hmet, hlater]

end Act

/-! ### Whole runs -/

namespace Assembly

/-- The system `s` has the constraints `c` and `d` next to each other in `a` and the other way round in `b`.  All else is
the same, up to the states that constraints saved and the order of its nodes. -/
structure Swapped (s : SystemId) (c d : ConstraintId) (a b : Assembly α) : Prop where
  order : ∃ before after, (a.system s).constraints = before ++ c :: d :: after ∧
    (b.system s).constraints = before ++ d :: c :: after
  listed : ∀ n, n ∈ (b.system s).nodes ↔ n ∈ (a.system s).nodes
  config : b.config (b.system s).config = a.config (a.system s).config
  node : ∀ n, b.node n = a.node n
  constraint : ∀ e ∈ (a.system s).constraints, b.constraint e = { a.constraint e with saved := (b.constraint e).saved }
  readings : b.readings = a.readings

namespace Swapped

variable {s : SystemId} {a b : Assembly α} {c d : ConstraintId} (h : Swapped s c d a b)
include h

theorem perm : (b.system s).constraints.Perm (a.system s).constraints := by
  obtain ⟨before, after, ha, hb⟩ := h.order
  rw [ha, hb]
  exact (List.Perm.swap c d after).append_left before

theorem sameConstraints : SameConstraints s a b :=
  ⟨fun _ => h.perm.mem_iff.mpr, fun _ hc _ => h.perm.mem_iff.mp hc, h.constraint, h.config⟩

theorem mem_nodesOf_iff (n : NodeId) :
    n ∈ b.nodesOf (b.system s).constraints ↔ n ∈ a.nodesOf (a.system s).constraints := by
  unfold nodesOf
  rw [List.mem_flatMap, List.mem_flatMap]
  refine exists_congr fun e => ?_
  rw [h.perm.mem_iff]
  refine and_congr_right fun he => ?_
  rw [h.constraint e he]

theorem registrations (n : NodeId) : b.registrations (b.system s).constraints n =
    a.registrations (a.system s).constraints n := by
  unfold Assembly.registrations
  rw [h.perm.countP_eq]
  refine List.countP_congr fun e he => ?_
  rw [h.constraint e he]

theorem abreast (ha : ∃ made, Coherent made a) (hb : ∃ made, Coherent made b) :
    Abreast .same (a.system s).constraints a b where
  coherent := ha
  coherent' := hb
  task e he := by
    obtain ⟨made, hmade⟩ := ha
    obtain ⟨made', hmade'⟩ := hb
    exact h.sameConstraints.sameTask hmade.consistent he hmade'.consistent (fun _ _ => trivial)
      (fun _ _ _ _ _ _ _ _ => trivial) fun t _ => t.respects_same
  node n _ := (h.node n).symm
  rest _ _ := trivial
  readings := by
    change (b.readings : Int) = a.readings + 0
    rw [h.readings, Int.add_zero]

end Swapped

theorem swapped_reorder {a : Assembly α} {s : SystemId} {c d : ConstraintId} {before after : List ConstraintId}
    (h : (a.system s).constraints = before ++ c :: d :: after) :
    Swapped s c d a (a.reorder s (before ++ d :: c :: after)) where
  order := ⟨before, after, h, by rw [system_reorder, if_pos rfl]⟩
  listed n := by rw [system_reorder]
  config := by
    rw [system_reorder]
    rfl
  node _ := rfl
  constraint _ _ := rfl
  readings := rfl

end Assembly

namespace Act

open Assembly (Abreast Coherent Swapped)

/-- Relaxing concurs in both orders, and a run that meets every constraint leaves all nodes the same. -/
theorem concur_correct_swapped {s : SystemId} {a b : Assembly α} {c d : ConstraintId} (h : Swapped s c d a b)
    (ha : ∃ made, Coherent made a) (hb : ∃ made, Coherent made b) (hcd : a.Overlooks c d) (hdc : a.Overlooks d c) :
    Concur (fun _ _ => True) (fun k k' a' b' => k' = k ∧ (1 ≤ k → Abreast .same (a.system s).constraints a' b'))
      (correct s) (correct s) a b := by
  have habreast := h.abreast ha hb
  refine concur_correct_abreast (by rw [h.config]) h.listed (fun a' b' hab n _ => ?_) (fun a' b' hab _ _ => ?_)
    (fun a' b' hab ha' _ => ?_) (habreast.clearBoosts h.mem_nodesOf_iff fun _ _ => trivial)
  · have hnode : a'.node n = b'.node n := hab.node n trivial
    rw [hnode]
  · exact hab.clearBoosts h.mem_nodesOf_iff fun _ _ => trivial
  · obtain ⟨before, after, horder, horder'⟩ := h.order
    rw [horder']
    have hsub : before ++ c :: d :: after ⊆ (a.system s).constraints := by
      rw [horder]
      exact List.Subset.refl _
    have hall := concur_correctAll_swapped hab hsub (hcd.samePlan ha'.toSamePlan) (hdc.samePlan ha'.toSamePlan)
    rwa [← horder] at hall

/-- Take a system in two states that differ in the order of two neighbouring constraints, neither of which sees a node of
the other.  If relaxing does not fail in the one, it has the same answer in the other, and leaves every node in the same
place with the same boost, whether every constraint was met or the nodes were put back. -/
theorem correct_swapped (st st' : Session α) (s : SystemId) (c d : ConstraintId)
    (hst : ∃ made, Coherent made st.assembly) (hst' : ∃ made, Coherent made st'.assembly)
    (hswapped : Swapped s c d st.assembly st'.assembly)
    (hcap : 1 ≤ (st.assembly.config (st.assembly.system s).config).cap)
    (hcd : st.assembly.Overlooks c d) (hdc : st.assembly.Overlooks d c) (k : Nat)
    (hanswer : (correct s).answer st = .ok k) :
    (correct s).answer st' = .ok k ∧ ∀ n,
      (((correct s).after st').assembly.node n).x = (((correct s).after st).assembly.node n).x ∧
        (((correct s).after st').assembly.node n).y = (((correct s).after st).assembly.node n).y ∧
        (((correct s).after st').assembly.node n).boost = (((correct s).after st).assembly.node n).boost := by
  have hcap' : 1 ≤ (st'.assembly.config (st'.assembly.system s).config).cap := by
    rw [hswapped.config]
    exact hcap
  have hend := (concur_correct_swapped hswapped hst hst' hcd hdc).at_sessions
  refine ⟨hend.answer_ok hanswer, fun n => ?_⟩
  -- a run that is rolled back leaves all as before, boosts included; any other ends with the nodes of its last sweep
  rcases hend.rolled_back_or with ⟨hfailed, hfailed'⟩ | habreast
  · obtain ⟨hx, hy⟩ := (runs_correct_placed st s hcap).at_session hfailed n
    obtain ⟨hx', hy'⟩ := (runs_correct_placed st' s hcap').at_session hfailed' n
    have hboost := (runs_correct_boost st s hcap n).at_session hfailed
    have hboost' := (runs_correct_boost st' s hcap' n).at_session hfailed'
    rw [hx, hy, hx', hy', hboost, hboost', hswapped.registrations, hswapped.node]
    exact ⟨rfl, rfl, rfl⟩
  · have hnode : ((correct s).after st).assembly.node n = ((correct s).after st').assembly.node n :=
      habreast.node n trivial
    rw [hnode]
    exact ⟨rfl, rfl, rfl⟩

/-- Two bars on one line, of which the first has to shrink and is called the rod and the second has to grow, and a gap
between them that has to become as long as the rod. -/
def barsApart : List (Operation Float) :=
  [.make (.lengthFrom "rod" none), .newSystem none,
    .node 0 0 0 { base := some true }, .node 0 4 0 {}, .node 0 7 0 {}, .node 0 8 0 { base := some true },
    .pair 0 0 1 { id := some (some "rod"), length := some (.number (.int 3)) },
    .pair 0 2 3 { length := some (.number (.int 2)) },
    .pair 0 1 2 { length := some (.target (.computed rodLength)) }]

theorem correct_swapped_bars : (correct 0).answer (run barsApart ⟨.empty .standard, .empty Level.warning⟩) = .ok 2 ∧
    (correct 0).answer ⟨(run barsApart ⟨.empty .standard, .empty Level.warning⟩).assembly.reorder 0 [1, 0, 2],
      .empty Level.warning⟩ = .ok 2 := by
  set st := run barsApart ⟨.empty .standard, .empty Level.warning⟩
  have hgenuine : Genuine [] barsApart ⟨.empty .standard, .empty Level.warning⟩ := genuine_rodLength (by
    simp [Operation.references, referencesOf, rodLength, Spec.references, Target.references, Formula.references])
  have hcoherent := coherent_run_empty hgenuine
  have horder : (st.assembly.system 0).constraints = [] ++ 0 :: 1 :: [2] := by decide +kernel
  have hswapped : Assembly.Swapped 0 0 1 st.assembly (st.assembly.reorder 0 [1, 0, 2]) :=
    List.nil_append [1, 0, 2] ▸ Assembly.swapped_reorder horder
  have hperm : [1, 0, 2].Perm (st.assembly.system 0).constraints := by
    rw [horder]
    exact .swap 0 1 [2]
  have hcap : 1 ≤ (st.assembly.config (st.assembly.system 0).config).cap := by decide +kernel
  have hfixed : ∀ c ∈ [0, 1], ∀ t ∈ (st.assembly.constraint c).targets, t.references.isEmpty ∧ t.isCallable = false := by
    decide +kernel
  have hapart : ∀ n ∈ (st.assembly.constraint 0).shape.nodes, n ∉ (st.assembly.constraint 1).shape.nodes := by
    decide +kernel
  have hapart' : ∀ n ∈ (st.assembly.constraint 1).shape.nodes, n ∉ (st.assembly.constraint 0).shape.nodes := by
    decide +kernel
  have hanswer : (correct 0).answer st = .ok 2 := eq_ok_of_toOption (by decide +kernel)
  have hover (c d : ConstraintId) (hc : c ∈ [0, 1])
      (hapart : ∀ n ∈ (st.assembly.constraint c).shape.nodes, n ∉ (st.assembly.constraint d).shape.nodes) :
      st.assembly.Overlooks c d := by
    refine ⟨hapart, fun t ht r hr => ?_, fun t ht => t.ifCallable_of_not_callable (hfixed c hc t ht).2⟩
    rw [List.isEmpty_iff.mp (hfixed c hc t ht).1] at hr
    exact absurd hr List.not_mem_nil
  exact ⟨hanswer, (correct_swapped st ⟨st.assembly.reorder 0 [1, 0, 2], .empty Level.warning⟩ 0 0 1 ⟨_, hcoherent⟩
    ⟨_, hcoherent.reorder hperm⟩ hswapped hcap (hover 0 1 (by simp) hapart) (hover 1 0 (by simp) hapart')
    2 hanswer).1⟩

end Act

end Linkage
