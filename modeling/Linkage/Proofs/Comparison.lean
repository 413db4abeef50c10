import Linkage.Proofs.Agreement
import Linkage.Proofs.Reading

/-!
# Linkage.Proofs.Comparison — correcting constraints on nodes that correspond

A `Comparison` says how the nodes of two assemblies correspond, by a relation that lengths, angles, shares and moves
respect: equality, equality up to what does not matter, or one place shifted against the other.  Two assemblies run
`Abreast` if corrections of certain constraints read the same in both: then passes answer alike on nodes that correspond
(`sameEnd_anglePass` and its siblings), targets have the same values (`Abreast.targetValue`), and a correction answers or
fails alike and leaves the assemblies abreast (`agree_correctOne`).
-/

namespace Linkage

variable {α : Type}

/-! ### Passes that end alike -/

/-- Two passes end alike: with one answer or one failure, and with states that `R` relates. -/
inductive SameEnd {σ β : Type} (R : σ → σ → Prop) :
    EStateM.Result (Fault α) σ β → EStateM.Result (Fault α) σ β → Prop where
  | ok {s t : σ} (x : β) (h : R s t) : SameEnd R (.ok x s) (.ok x t)
  | error {s t : σ} (e : Fault α) (h : R s t) : SameEnd R (.error e s) (.error e t)

section Pass

variable {σ β γ : Type} {R : σ → σ → Prop} {s t : σ}

theorem sameEnd_bind {p q : Pass α σ β} {f g : β → Pass α σ γ} (h : SameEnd R (p s) (q t))
    (hf : ∀ x s' t', R s' t' → SameEnd R (f x s') (g x t')) : SameEnd R ((p >>= f) s) ((q >>= g) t) := by
  simp only [bind, EStateM.bind]
  generalize p s = r at h
  generalize q t = r' at h
  cases h with
  | ok x h => exact hf x _ _ h
  | error e h => exact .error e h

theorem sameEnd_pure (x : β) (h : R s t) : SameEnd R ((pure x : Pass α σ β) s) ((pure x : Pass α σ β) t) := .ok x h

theorem sameEnd_ofExcept (r : Except (Fault α) β) (h : R s t) : SameEnd R (Pass.ofExcept r s) (Pass.ofExcept r t) := by
  cases r with
  | ok x => exact .ok x h
  | error e => exact .error e h

/-- Both read their states first. -/
theorem sameEnd_get {f : σ → Pass α σ γ} (h : SameEnd R (f s s) (f t t)) :
    SameEnd R ((get >>= f) s) ((get >>= f) t) := h

/-- Both change their states first. -/
theorem sameEnd_modify {g g' : σ → σ} {f f' : PUnit → Pass α σ γ} (hg : R (g s) (g' t))
    (h : R (g s) (g' t) → SameEnd R (f ⟨⟩ (g s)) (f' ⟨⟩ (g' t))) :
    SameEnd R ((modify g >>= f) s) ((modify g' >>= f') t) := h hg

end Pass

variable [Scalar α]

/-! ### Nodes that correspond -/

/-- How the nodes of two assemblies correspond: those that constraints see by `rel`, the others by `rest`.  The second
assembly has seen `drift` more readings of callables than the first. -/
structure Comparison (α : Type) [Scalar α] where
  seen : NodeId → Prop
  rel : Node α → Node α → Prop
  rest : NodeId → Node α → Node α → Prop
  drift : Int
  inverseMass : ∀ {v w : Node α}, rel v w → w.inverseMass = v.inverseMass
  vectorTo : ∀ {v w v' w' : Node α}, rel v w → rel v' w' → w.vectorTo w' = v.vectorTo v'
  push : ∀ {v w : Node α} (dx dy : α), rel v w →
    rel (v.moveTo (v.x + dx) (v.y + dy)) (w.moveTo (w.x + dx) (w.y + dy))
  pull : ∀ {v w : Node α} (dx dy : α), rel v w →
    rel (v.moveTo (v.x - dx) (v.y - dy)) (w.moveTo (w.x - dx) (w.y - dy))
  addBoost : ∀ {v w : Node α}, rel v w → rel v.addBoost w.addBoost
  clearBoost : ∀ {v w : Node α}, rel v w → rel v.clearBoost w.clearBoost

/-- Nodes that are seen are equal; nothing is said of the others. -/
def Comparison.exact (seen : NodeId → Prop) (drift : Int) : Comparison α where
  seen := seen
  rel := Eq
  rest _ _ _ := True
  drift := drift
  inverseMass h := by rw [h]
  vectorTo h h' := by rw [h, h']
  push dx dy h := by rw [h]
  pull dx dy h := by rw [h]
  addBoost h := by rw [h]
  clearBoost h := by rw [h]

namespace Comparison

variable (w : Comparison α)

/-- The ends of two pairs correspond. -/
def Ends (e e' : Linkage.Ends α) : Prop := w.rel e.first e'.first ∧ w.rel e.second e'.second

/-- The nodes of two triples correspond. -/
def Corner (k k' : Linkage.Corner α) : Prop := w.rel k.apex k'.apex ∧ w.rel k.ray k'.ray ∧ w.rel k.arm k'.arm

variable {w} {e e' : Linkage.Ends α} {k k' : Linkage.Corner α}

theorem Ends.vector (h : w.Ends e e') : e'.vector = e.vector := w.vectorTo h.1 h.2

theorem Ends.shares (h : w.Ends e e') : e'.shares = e.shares := by
  unfold Linkage.Ends.shares
  rw [w.inverseMass h.1, w.inverseMass h.2]

theorem Ends.shift (h : w.Ends e e') (share : α × α) (d : Vec α) : w.Ends (e.shift share d) (e'.shift share d) :=
  ⟨w.push _ _ h.1, w.pull _ _ h.2⟩

theorem Ends.addBoost (h : w.Ends e e') : w.Ends e.addBoost e'.addBoost := ⟨w.addBoost h.1, w.addBoost h.2⟩

theorem Corner.rayVector (h : w.Corner k k') : k'.rayVector = k.rayVector := w.vectorTo h.1 h.2.1

theorem Corner.armVector (h : w.Corner k k') : k'.armVector = k.armVector := w.vectorTo h.1 h.2.2

theorem Corner.isFlat (h : w.Corner k k') : k'.isFlat = k.isFlat := by
  unfold Linkage.Corner.isFlat
  rw [h.rayVector]

theorem Corner.armShare (h : w.Corner k k') : k'.armShare = k.armShare := by
  unfold Linkage.Corner.armShare
  rw [w.inverseMass h.1, w.inverseMass h.2.2]

theorem sameEnd_reachPass (cfg : Config α) (share : α × α) (h : w.Ends e e') :
    SameEnd w.Ends (reachPass cfg share e) (reachPass cfg share e') := by
  refine sameEnd_get ?_
  dsimp only
  rw [h.vector]
  split
  · refine sameEnd_bind (sameEnd_ofExcept _ h) fun dx _ _ h => ?_
    refine sameEnd_bind (sameEnd_ofExcept _ h) fun dy _ _ h => ?_
    exact sameEnd_modify (h.shift share ⟨dx, dy⟩) fun h => sameEnd_pure _ h
  · exact sameEnd_pure false h

theorem sameEnd_anglePass (cfg : Config α) (direction : Direction) (target : α) (h : w.Ends e e') :
    SameEnd w.Ends (anglePass cfg direction target e) (anglePass cfg direction target e') := by
  refine sameEnd_bind (sameEnd_ofExcept _ h) fun heading e e' h => sameEnd_get ?_
  rw [h.vector, h.shares]
  refine sameEnd_bind (sameEnd_ofExcept _ h) fun share e e' h => ?_
  refine sameEnd_modify (h.shift share _) fun h => ?_
  refine sameEnd_bind (sameEnd_reachPass cfg share h) fun pulled e e' h => ?_
  exact sameEnd_modify h.addBoost fun h => sameEnd_pure _ h

theorem sameEnd_lengthPass (cfg : Config α) (target : α) (h : w.Ends e e') :
    SameEnd w.Ends (lengthPass cfg target e) (lengthPass cfg target e') := by
  refine sameEnd_get ?_
  rw [h.vector, h.shares]
  split
  · exact sameEnd_pure true h
  · refine sameEnd_bind (sameEnd_ofExcept _ h) fun u _ _ h => ?_
    refine sameEnd_bind (sameEnd_ofExcept _ h) fun share _ _ h => ?_
    refine sameEnd_modify (h.shift share _) fun h => ?_
    exact sameEnd_modify h.addBoost fun h => sameEnd_pure false h

theorem sameEnd_rayPass (cfg : Config α) (target : α) (h : w.Corner k k') :
    SameEnd w.Corner (rayPass cfg target k) (rayPass cfg target k') := by
  refine sameEnd_get ?_
  dsimp only
  rw [h.rayVector, h.armVector, h.armShare]
  refine sameEnd_bind (sameEnd_ofExcept _ h) fun c _ _ _ => ?_
  refine sameEnd_bind (sameEnd_ofExcept _ ‹_›) fun s _ _ _ => ?_
  refine sameEnd_bind (sameEnd_ofExcept _ ‹_›) fun turn _ _ _ => ?_
  refine sameEnd_bind (sameEnd_ofExcept _ ‹_›) fun share _ _ _ => ?_
  exact .ok _ ⟨h.1, h.2.1, w.addBoost (w.pull _ _ h.2.2)⟩

end Comparison

/-! ### Targets and their values -/

namespace Comparison

variable {w : Comparison α} {shape : Shape} {f g : NodeId → Node α}

theorem length_eq (h : ∀ n ∈ shape.nodes, w.rel (f n) (g n)) : shape.length g = shape.length f := by
  cases shape with
  | pair first second direction =>
    simp only [Shape.length, w.vectorTo (h first (by simp [Shape.nodes])) (h second (by simp [Shape.nodes]))]
  | triple apex ray arm => rfl

theorem angle_eq (h : ∀ n ∈ shape.nodes, w.rel (f n) (g n)) : shape.angle g = shape.angle f := by
  cases shape with
  | pair first second direction =>
    simp only [Shape.angle, w.vectorTo (h first (by simp [Shape.nodes])) (h second (by simp [Shape.nodes]))]
  | triple apex ray arm =>
    have hapex := h apex (by simp [Shape.nodes])
    simp only [Shape.angle, w.vectorTo hapex (h ray (by simp [Shape.nodes])),
      w.vectorTo hapex (h arm (by simp [Shape.nodes]))]

end Comparison

/-- The target has one value wherever the nodes correspond. -/
def Target.Respects (w : Comparison α) (t : Target α) : Prop :=
  t.IfCallable fun read => ∀ v v' : Sight α, v'.owner = v.owner → (∀ n ∈ v.owner.nodes, w.seen n) →
    (∀ n, w.seen n → w.rel (v.node n) (v'.node n)) → (∀ n, ¬w.seen n → w.rest n (v.node n) (v'.node n)) →
    (v'.moment : Int) = v.moment + w.drift → read v' = read v

namespace Assembly

/-- `c` has the same task in `a` and in `b`: its data and configuration are the same, its references find constraints of
the same shapes, and it sees the nodes of all these, but none that do not correspond. -/
structure SameTask (w : Comparison α) (c : ConstraintId) (a b : Assembly α) : Prop where
  constraint : b.constraint c = { a.constraint c with saved := (b.constraint c).saved }
  configOf : b.configOf c = a.configOf c
  nodes : ∀ n ∈ (a.constraint c).shape.nodes, w.seen n
  lookUp : ∀ t ∈ (a.constraint c).targets, ∀ r ∈ t.references, b.lookUp c r = a.lookUp c r
  found : ∀ t ∈ (a.constraint c).targets, ∀ r ∈ t.references, ∀ d, a.lookUp c r = .ok d →
    (b.constraint d).shape = (a.constraint d).shape ∧ ∀ n ∈ (a.constraint d).shape.nodes, w.seen n
  callables : ∀ t ∈ (a.constraint c).targets, t.Respects w

/-- Corrections of the constraints of a list read the same in `a` and in `b`, up to the correspondence of nodes. -/
structure Abreast (w : Comparison α) (constraints : List ConstraintId) (a b : Assembly α) : Prop where
  coherent : ∃ made, Coherent made a
  coherent' : ∃ made, Coherent made b
  task : ∀ c ∈ constraints, SameTask w c a b
  node : ∀ n, w.seen n → w.rel (a.node n) (b.node n)
  rest : ∀ n, ¬w.seen n → w.rest n (a.node n) (b.node n)
  readings : (b.readings : Int) = a.readings + w.drift

variable {w : Comparison α} {constraints : List ConstraintId} {c : ConstraintId} {a b a' b' : Assembly α}

namespace SameTask

theorem shape (h : SameTask w c a b) : (b.constraint c).shape = (a.constraint c).shape := by rw [h.constraint]

theorem lengthTarget (h : SameTask w c a b) : (b.constraint c).lengthTarget = (a.constraint c).lengthTarget := by
  rw [h.constraint]

theorem angleTarget (h : SameTask w c a b) : (b.constraint c).angleTarget = (a.constraint c).angleTarget := by
  rw [h.constraint]

theorem samePlan (h : SameTask w c a b) (ha : SamePlan a a') (hb : SamePlan b b') : SameTask w c a' b' where
  constraint := by
    rw [hb.constraint, h.constraint, ha.constraint]
  configOf := by rw [hb.configOf, ha.configOf, h.configOf]
  nodes := by
    rw [ha.shape]
    exact h.nodes
  lookUp := by
    rw [ha.targets]
    intro t ht r hr
    rw [hb.lookUp, ha.lookUp, h.lookUp t ht r hr]
  found := by
    rw [ha.targets]
    intro t ht r hr d hd
    rw [ha.lookUp] at hd
    rw [hb.shape, ha.shape]
    exact h.found t ht r hr d hd
  callables := by
    rw [ha.targets]
    exact h.callables

end SameTask

namespace Abreast

/-- Relaxing both leaves them abreast if the nodes go on to correspond and the readings keep their distance. -/
theorem relaxed (h : Abreast w constraints a b) (ha : Relaxed a a') (hb : Relaxed b b')
    (hnode : ∀ n, w.seen n → w.rel (a'.node n) (b'.node n)) (hrest : ∀ n, ¬w.seen n → w.rest n (a'.node n) (b'.node n))
    (hreadings : (b'.readings : Int) = a'.readings + w.drift) : Abreast w constraints a' b' where
  coherent := h.coherent.imp fun _ hmade => hmade.relaxed ha
  coherent' := h.coherent'.imp fun _ hmade => hmade.relaxed hb
  task c hc := (h.task c hc).samePlan ha.toSamePlan hb.toSamePlan
  node := hnode
  rest := hrest
  readings := hreadings

/-- A node that is seen is replaced in both by nodes that correspond. -/
theorem setNode (h : Abreast w constraints a b) {n : NodeId} (hn : w.seen n) {v v' : Node α} (hv : w.rel v v') :
    Abreast w constraints (a.setNode n v) (b.setNode n v') := by
  refine h.relaxed (relaxed_setNode a n v) (relaxed_setNode b n v') (fun m hm => ?_) (fun m hm => ?_) h.readings
  · rw [node_setNode, node_setNode]
    split
    · exact hv
    · exact h.node m hm
  · have hnm : n ≠ m := by
      rintro rfl
      exact hm hn
    rw [node_setNode, node_setNode, if_neg hnm, if_neg hnm]
    exact h.rest m hm

/-- Both have read a target of a constraint. -/
theorem consulted (h : Abreast w constraints a b) {refs refs' : List Reference} {count : Nat}
    (ha : Consulted c refs a a') (hb : Consulted c refs' b b') (hrefs : ∀ r ∈ refs, a.Cites r)
    (hrefs' : ∀ r ∈ refs', b.Cites r) (hcount : a'.readings = a.readings + count)
    (hcount' : b'.readings = b.readings + count) : Abreast w constraints a' b' := by
  have ha' : Corrected [] a a' := ha.corrected hrefs
  have hb' : Corrected [] b b' := hb.corrected hrefs'
  have hreadings := h.readings
  refine h.relaxed ha'.relaxed hb'.relaxed (fun n hn => ?_) (fun n hn => ?_) (by omega)
  · rw [ha.node, hb.node]
    exact h.node n hn
  · rw [ha.node, hb.node]
    exact h.rest n hn

variable (h : Abreast w constraints a b) (hc : c ∈ constraints)
include h hc

theorem length : b.length c = a.length c := by
  unfold Assembly.length
  rw [(h.task c hc).shape]
  exact Comparison.length_eq fun n hn => h.node n ((h.task c hc).nodes n hn)

theorem angle : b.angle c = a.angle c := by
  unfold Assembly.angle
  rw [(h.task c hc).shape]
  exact Comparison.angle_eq fun n hn => h.node n ((h.task c hc).nodes n hn)

variable {t : Target α} (ht : t ∈ (a.constraint c).targets)
include ht

theorem lengthThrough {r : Reference} (hr : r ∈ t.references) : b.lengthThrough c r = a.lengthThrough c r := by
  unfold Assembly.lengthThrough
  rw [(h.task c hc).lookUp t ht r hr]
  cases hfound : a.lookUp c r with
  | error e => rfl
  | ok d =>
    obtain ⟨hshape, hseen⟩ := (h.task c hc).found t ht r hr d hfound
    change b.length d = a.length d
    unfold Assembly.length
    rw [hshape]
    exact Comparison.length_eq fun n hn => h.node n (hseen n hn)

theorem angleThrough {r : Reference} (hr : r ∈ t.references) : b.angleThrough c r = a.angleThrough c r := by
  unfold Assembly.angleThrough
  rw [(h.task c hc).lookUp t ht r hr]
  cases hfound : a.lookUp c r with
  | error e => rfl
  | ok d =>
    obtain ⟨hshape, hseen⟩ := (h.task c hc).found t ht r hr d hfound
    have hangle : b.angle d = a.angle d := by
      unfold Assembly.angle
      rw [hshape]
      exact Comparison.angle_eq fun n hn => h.node n (hseen n hn)
    exact congrArg Except.ok hangle

/-- A target of a constraint has one value in both. -/
theorem targetValue : b.targetValue c t = a.targetValue c t := by
  cases t with
  | fixed x => rfl
  | computed k =>
    obtain ⟨name, f⟩ := k
    have hlength (r : Reference) (hr : r ∈ f.references) := h.lengthThrough hc ht hr
    have hangle (r : Reference) (hr : r ∈ f.references) := h.angleThrough hc ht hr
    change b.valueOf c f = a.valueOf c f
    cases f with
    | ownLengthMin least => simp only [Assembly.valueOf, h.length hc]
    | ownLengthMax most => simp only [Assembly.valueOf, h.length hc]
    | ownLengthRange least most => simp only [Assembly.valueOf, h.length hc]
    | ownAngleMin least => simp only [Assembly.valueOf, h.angle hc]
    | ownAngleMax most => simp only [Assembly.valueOf, h.angle hc]
    | ownAngleRange least most => simp only [Assembly.valueOf, h.angle hc]
    | lengthOf r factor => simp only [Assembly.valueOf, hlength r (List.mem_singleton_self r)]
    | angleOf r offset => simp only [Assembly.valueOf, hangle r (List.mem_singleton_self r)]
    | around r least most => simp only [Assembly.valueOf, h.angle hc, hangle r (List.mem_singleton_self r)]
    | obtuse r => simp only [Assembly.valueOf, h.angle hc, hangle r (List.mem_singleton_self r)]
    | between r₁ r₂ scale =>
      simp only [Assembly.valueOf, hangle r₁ (by simp [Formula.references]), hangle r₂ (by simp [Formula.references])]
    -- a callable sees nodes and count as they are, and has one value because it respects the correspondence
    | callable read =>
      exact (h.task c hc).callables _ ht _ _ (h.task c hc).shape (h.task c hc).nodes h.node h.rest h.readings

end Abreast

/-- `b` has seen as many readings of callables as `a`. -/
def SameCount (a b : Assembly α) : Prop := b.readings = a.readings

instance : IsPreorder (Assembly α) SameCount where
  refl _ := rfl
  trans _ _ _ h h' := h'.trans h

end Assembly

namespace Act

open Assembly (Abreast SameCount)

/-! ### Counting readings -/

theorem keeps_follow_count (r : Reference) (c : ConstraintId) : Keeps (α := α) SameCount (follow r c) := by
  have hresolve : Keeps (α := α) SameCount (resolve c r.ref) := by
    refine keeps_read fun a => ?_
    dsimp only
    cases (a.constraint c).owner with
    | none => exact keeps_throw _ a
    | some s =>
      refine Keeps.bind (Keeps.traced (keeps_read fun b => keeps_pure _ b)) (fun found? => ?_) a
      cases found? with
      | none => exact keeps_throw _
      | some found => exact keeps_pure found
  have hremember (f : Found) : Keeps (α := α) SameCount (change fun a => { a with found := f :: a.found }) :=
    keeps_change fun _ => rfl
  refine keeps_read fun a => ?_
  dsimp only
  cases (a.constraint c).owner.bind fun s => a.remembered? r.key s with
  | some found => exact keeps_pure found a
  | none =>
    refine hresolve.bind (fun found => keeps_read fun b => ?_) a
    split
    · cases (a.constraint c).owner with
      | none => exact (keeps_report _ _ _).bind (fun _ => keeps_pure found) b
      | some s => exact (hremember _).bind (fun _ => (keeps_report _ _ _).bind fun _ => keeps_pure found) b
    · exact keeps_throw _ b

theorem keeps_lengthAt_count (r : Reference) (c : ConstraintId) : Keeps (α := α) SameCount (lengthAt r c) :=
  (keeps_follow_count r c).bind fun _ => keeps_read fun a => keeps_ofExcept _ a

theorem keeps_angleAt_count (r : Reference) (c : ConstraintId) : Keeps (α := α) SameCount (angleAt r c) :=
  (keeps_follow_count r c).bind fun _ => keeps_read fun a => keeps_pure _ a

/-- Formulas that are no callables count no reading. -/
theorem keeps_formula_count {f : Formula α} (hf : f.isCallable = false) (c : ConstraintId) :
    Keeps SameCount (formula c f) := by
  have hpure (x : α) : Keeps SameCount (pure x : Act α α) := keeps_pure x
  have hlength : Keeps (α := α) SameCount (ownLength c) := keeps_read fun a => keeps_ofExcept _ a
  have hangle : Keeps (α := α) SameCount (ownAngle c) := keeps_read fun a => keeps_pure _ a
  cases f with
  | ownLengthMin least => exact hlength.bind fun _ => hpure _
  | ownLengthMax most => exact hlength.bind fun _ => hpure _
  | ownLengthRange least most => exact hlength.bind fun _ => hpure _
  | ownAngleMin least => exact hangle.bind fun _ => hpure _
  | ownAngleMax most => exact hangle.bind fun _ => hpure _
  | ownAngleRange least most => exact hangle.bind fun _ => hpure _
  | lengthOf r factor => exact (keeps_lengthAt_count r c).bind fun _ => hpure _
  | angleOf r offset => exact (keeps_angleAt_count r c).bind fun _ => hpure _
  | around r least most => exact (keeps_angleAt_count r c).bind fun _ => hangle.bind fun _ => hpure _
  | obtuse r =>
    refine (keeps_angleAt_count r c).bind fun _ => hangle.bind fun _ => ?_
    dsimp only
    split
    · exact hpure _
    · exact hpure _
  | between r₁ r₂ scale => exact (keeps_angleAt_count r₁ c).bind fun _ => (keeps_angleAt_count r₂ c).bind fun _ => hpure _
  | callable read => exact nomatch hf

/-- Reading a target counts one reading if it is a callable, and none otherwise. -/
theorem runs_evaluate_count (a : Assembly α) (c : ConstraintId) (t : Target α) :
    Runs (evaluate c t) a fun _ b => b.readings = a.readings + t.isCallable.toNat := by
  cases t with
  | fixed x => exact runs_pure rfl
  | computed k =>
    obtain ⟨name, f⟩ := k
    by_cases hf : f.isCallable = false
    · refine (keeps_formula_count hf c a).mono fun _ b hb => ?_
      have hcount : (Target.computed ⟨name, f⟩ : Target α).isCallable.toNat = 0 := by
        simp [Target.isCallable, hf]
      rw [hcount]
      exact hb
    · cases f with
      | callable read => exact runs_read (runs_after_change (runs_ofExcept rfl))
      | _ => exact absurd rfl hf

/-! ### Correcting -/

section Correcting

variable {w : Comparison α} {constraints : List ConstraintId} {c : ConstraintId} {a b : Assembly α}

theorem agree_evaluate_abreast (h : Abreast w constraints a b) (hc : c ∈ constraints) {t : Target α}
    (ht : t ∈ (a.constraint c).targets) :
    Agree Eq (Abreast w constraints) (evaluate c t) (evaluate c t) a b := by
  -- the target is stored with the constraint in both assemblies, so that its references have been made there
  have hcites {d : Assembly α} (ht : t ∈ (d.constraint c).targets) : ∀ r ∈ Target.referencesOf (some t), d.Cites r := by
    intro r hr
    rcases List.mem_append.mp ht with ht | ht
    · exact ⟨c, Or.inl (by rwa [Option.mem_toList.mp ht])⟩
    · exact ⟨c, Or.inr (by rwa [Option.mem_toList.mp ht])⟩
  have ht' : t ∈ (b.constraint c).targets := by
    unfold Constraint.targets
    rw [(h.task c hc).lengthTarget, (h.task c hc).angleTarget]
    exact ht
  obtain ⟨made, hmade⟩ := h.coherent
  obtain ⟨made', hmade'⟩ := h.coherent'
  obtain ⟨hapart, hhonest⟩ := hmade.stored (c := c) (hcites ht)
  obtain ⟨hapart', hhonest'⟩ := hmade'.stored (c := c) (hcites ht')
  refine ((runs_evaluate a c t).and (runs_evaluate_count a c t)).mono fun r a' ⟨⟨ha, hr⟩, hcount⟩ =>
    ((runs_evaluate b c t).and (runs_evaluate_count b c t)).mono fun r' b' ⟨⟨hb, hr'⟩, hcount'⟩ => ⟨?_, ?_⟩
  · rw [hr hapart hhonest, hr' hapart' hhonest', h.targetValue hc ht]
    exact matches_refl _
  · exact h.consulted ha hb (hcites ht) (hcites ht') hcount hcount'

/-- Reading a target that may be missing. -/
theorem agree_optional_abreast (h : Abreast w constraints a b) (hc : c ∈ constraints) (t? : Option (Target α)) :
    (∀ t ∈ t?.toList, t ∈ (a.constraint c).targets) →
    Agree Eq (Abreast w constraints) (match t? with
      | some t => return some (← evaluate c t)
      | none => return none : Act α (Option α)) (match t? with
      | some t => return some (← evaluate c t)
      | none => return none : Act α (Option α)) a b := by
  intro ht
  cases t? with
  | none => exact agree_pure rfl h
  | some t =>
    refine agree_bind (agree_evaluate_abreast h hc (ht t (by simp))) fun x y _ _ hxy h => ?_
    rw [hxy]
    exact agree_pure rfl h

theorem agree_targetLength_abreast (h : Abreast w constraints a b) (hc : c ∈ constraints) :
    Agree Eq (Abreast w constraints) (targetLength c) (targetLength c) a b := by
  refine agree_read ?_
  rw [(h.task c hc).lengthTarget]
  exact agree_optional_abreast h hc _ fun t ht => List.mem_append_left _ ht

theorem agree_targetAngle_abreast (h : Abreast w constraints a b) (hc : c ∈ constraints) :
    Agree Eq (Abreast w constraints) (targetAngle c) (targetAngle c) a b := by
  refine agree_read ?_
  rw [(h.task c hc).angleTarget]
  exact agree_optional_abreast h hc _ fun t ht => List.mem_append_right _ ht

theorem agree_onEnds {β : Type} (h : Abreast w constraints a b) {first second : NodeId} (hfirst : w.seen first)
    (hsecond : w.seen second) {pass : Pass α (Ends α) β}
    (hpass : ∀ {e e'}, w.Ends e e' → SameEnd w.Ends (pass e) (pass e')) :
    Agree Eq (Abreast w constraints) (onEnds first second pass) (onEnds first second pass) a b := by
  refine agree_read ?_
  have hends : w.Ends ⟨a.node first, a.node second⟩ ⟨b.node first, b.node second⟩ :=
    ⟨h.node first hfirst, h.node second hsecond⟩
  have hend := hpass hends
  generalize pass ⟨a.node first, a.node second⟩ = r at hend
  generalize pass ⟨b.node first, b.node second⟩ = r' at hend
  cases hend with
  | ok x hends =>
    exact agree_bind (agree_change ((h.setNode hfirst hends.1).setNode hsecond hends.2)) fun _ _ _ _ _ h =>
      agree_pure rfl h
  | error e hends =>
    exact agree_bind (agree_change ((h.setNode hfirst hends.1).setNode hsecond hends.2)) fun _ _ _ _ _ h =>
      agree_throw e h

theorem agree_onCorner {β : Type} (h : Abreast w constraints a b) {apex ray arm : NodeId} (hapex : w.seen apex)
    (hray : w.seen ray) (harm : w.seen arm) {pass : Pass α (Corner α) β}
    (hpass : ∀ {k k'}, w.Corner k k' → SameEnd w.Corner (pass k) (pass k')) :
    Agree Eq (Abreast w constraints) (onCorner apex ray arm pass) (onCorner apex ray arm pass) a b := by
  refine agree_read ?_
  have hcorners : w.Corner ⟨a.node apex, a.node ray, a.node arm⟩ ⟨b.node apex, b.node ray, b.node arm⟩ :=
    ⟨h.node apex hapex, h.node ray hray, h.node arm harm⟩
  have hend := hpass hcorners
  generalize pass ⟨a.node apex, a.node ray, a.node arm⟩ = r at hend
  generalize pass ⟨b.node apex, b.node ray, b.node arm⟩ = r' at hend
  cases hend with
  | ok x hcorner =>
    exact agree_bind (agree_change (((h.setNode hapex hcorner.1).setNode hray hcorner.2.1).setNode harm hcorner.2.2))
      fun _ _ _ _ _ h => agree_pure rfl h
  | error e hcorner =>
    exact agree_bind (agree_change (((h.setNode hapex hcorner.1).setNode hray hcorner.2.1).setNode harm hcorner.2.2))
      fun _ _ _ _ _ h => agree_throw e h

theorem agree_meet (h : Abreast w constraints a b) {first second : NodeId} (hfirst : w.seen first)
    (hsecond : w.seen second) {pass : α → Pass α (Ends α) Bool}
    (hpass : ∀ target {e e'}, w.Ends e e' → SameEnd w.Ends (pass target e) (pass target e')) (target? : Option α) :
    Agree Eq (Abreast w constraints) (meet (fun target => onEnds first second (pass target)) target?)
      (meet (fun target => onEnds first second (pass target)) target?) a b := by
  cases target? with
  | none => exact agree_pure rfl h
  | some target => exact agree_onEnds h hfirst hsecond (hpass target)

/-- Correcting a constraint answers or fails alike in both, and leaves them abreast. -/
theorem agree_correctOne (h : Abreast w constraints a b) (hc : c ∈ constraints) :
    Agree Eq (Abreast w constraints) (correctOne c) (correctOne c) a b := by
  have htask := h.task c hc
  have hseen := htask.nodes
  refine agree_read ?_
  dsimp only
  rw [htask.shape, htask.configOf, htask.angleTarget]
  cases hshape : (a.constraint c).shape with
  | pair first second direction =>
    rw [hshape] at hseen
    have hfirst := hseen first (by simp [Shape.nodes])
    have hsecond := hseen second (by simp [Shape.nodes])
    refine agree_bind (agree_targetAngle_abreast h hc) fun angle? angle?' _ _ heq h => ?_
    subst heq
    refine agree_bind (agree_meet h hfirst hsecond (fun target _ _ => Comparison.sameEnd_anglePass _ direction target)
      angle?) fun angleMet angleMet' _ _ hangleMet h => ?_
    -- the length is read after the angle pass, in assemblies that are abreast again
    refine agree_bind (agree_targetLength_abreast h hc) fun length? length?' _ _ heq h => ?_
    subst heq
    refine agree_bind (agree_meet h hfirst hsecond (fun target _ _ => Comparison.sameEnd_lengthPass _ target)
      length?) fun lengthMet lengthMet' _ _ hlengthMet h => ?_
    rw [hangleMet, hlengthMet]
    exact agree_pure rfl h
  | triple apex ray arm =>
    rw [hshape] at hseen
    have hapex := hseen apex (by simp [Shape.nodes])
    have hray := hseen ray (by simp [Shape.nodes])
    have harm := hseen arm (by simp [Shape.nodes])
    cases htarget : (a.constraint c).angleTarget with
    | none => exact agree_pure rfl h
    | some t =>
      have hcorner : w.Corner ⟨a.node apex, a.node ray, a.node arm⟩ ⟨b.node apex, b.node ray, b.node arm⟩ :=
        ⟨h.node apex hapex, h.node ray hray, h.node arm harm⟩
      dsimp only
      rw [hcorner.isFlat]
      split
      · exact agree_pure rfl h
      · have ht : t ∈ (a.constraint c).targets := List.mem_append_right _ (by simp [htarget])
        refine agree_bind (agree_evaluate_abreast h hc ht) fun target target' _ _ heq h => ?_
        subst heq
        exact agree_onCorner h hapex hray harm (Comparison.sameEnd_rayPass _ target)

/-- Correcting constraints one after the other answers or fails alike in both. -/
theorem agree_correctAll_abreast {some : List ConstraintId} (h : Abreast w constraints a b) (hsome : some ⊆ constraints) :
    Agree Eq (Abreast w constraints) (correctAll some) (correctAll some) a b := by
  induction some generalizing a b with
  | nil => exact agree_pure rfl h
  | cons c rest ih =>
    obtain ⟨hc, hrest⟩ := List.cons_subset.mp hsome
    refine agree_bind (agree_correctOne h hc) fun met met' a' b' hmet h => ?_
    refine agree_bind (ih h hrest) fun later later' a'' b'' hlater h => ?_
    rw [hmet, hlater]
    exact agree_pure rfl h

end Correcting

end Act

end Linkage
