import Linkage.Mechanism
import Linkage.Proofs.Memory

/-!
# Linkage.Proofs.Drafting — systems that are built from nothing

A builder makes a system and then nodes and constraints for it, one after the other.  `Draft` is what it knows on the way:
the nodes and the constraints that it has made, each with a number of its own, in a session of which it knows nothing
else but that its memory is coherent.  Each step of a builder adds one object to the end of a draft.
-/

namespace Linkage

variable {α : Type}

/-! ### What registering leaves alone -/

namespace Assembly

section Registering

variable (a : Assembly α) (s : SystemId) (n : NodeId) (c : ConstraintId)

/-- Nothing of the assembly is changed but its systems. -/
def OnlySystems (a b : Assembly α) : Prop := ∃ systems, b = { a with systems := systems }

theorem onlySystems_enlist : OnlySystems a (a.enlist s n) := by
  unfold enlist
  dsimp only
  split
  · exact ⟨_, rfl⟩
  · exact ⟨_, rfl⟩

theorem onlySystems_enlistAll (ns : List NodeId) : OnlySystems a (a.enlistAll s ns) := by
  unfold enlistAll
  induction ns generalizing a with
  | nil => exact ⟨_, rfl⟩
  | cons n rest ih =>
    obtain ⟨systems, hlater⟩ := ih (a.enlist s n)
    obtain ⟨_, hfirst⟩ := onlySystems_enlist a s n
    exact ⟨systems, by rw [List.foldl_cons, hlater, hfirst]⟩

theorem onlySystems_indexId : OnlySystems a (a.indexId s c) := by
  unfold indexId
  split
  · exact ⟨_, rfl⟩
  · dsimp only
    split
    · exact ⟨_, rfl⟩
    · exact ⟨_, rfl⟩

theorem join_eq : ∃ systems constraints, a.join s c = { a with systems := systems, constraints := constraints } := by
  obtain ⟨_, hindexed⟩ := onlySystems_indexId a s c
  obtain ⟨_, hlisted⟩ := onlySystems_enlistAll (a.indexId s c) s (a.constraint c).shape.nodes
  unfold join
  rw [hlisted, hindexed]
  exact ⟨_, _, rfl⟩

end Registering

variable [Scalar α]

/-- The nodes and constraints that were made for the system `s`, in order, in a session where references `made` were made
so far.  The system has the configuration `cfg`. -/
structure Draft (s : SystemId) (cfg : Config α) (nodes : List (NodeId × Node α))
    (constraints : List (ConstraintId × Constraint α)) (made : List Reference) (a : Assembly α) : Prop where
  coherent : Coherent made a
  config : a.config (a.system s).config = cfg
  listed : (a.system s).constraints = constraints.map Prod.fst
  node : ∀ p ∈ nodes, p.1 < a.nodes.size ∧ a.node p.1 = p.2
  apart : (nodes.map Prod.fst).Nodup
  constraint : ∀ p ∈ constraints, p.1 < a.constraints.size ∧ a.constraint p.1 = p.2
  distinct : (constraints.map Prod.fst).Nodup

end Assembly

open Assembly (Coherent Draft)

namespace Act

variable [Scalar α] {a : Assembly α} {s : SystemId} {cfg : Config α} {nodes : List (NodeId × Node α)}
  {constraints : List (ConstraintId × Constraint α)} {made : List Reference}

/-- An operation that is given references made before keeps the memory coherent. -/
theorem runs_coherent (h : Coherent made a) (op : Operation α) (hrefs : op.references ⊆ made) :
    Runs op.act.2 a fun _ b => Coherent made b :=
  (op.runs_registers a).mono fun _ _ hab => hab.coherent h hrefs

/-- A new system has the ambient configuration, and nothing is drafted for it yet. -/
theorem runs_newSystem_draft (h : Coherent made a) :
    Runs (newSystem none) a fun r b => ∃ s, r = .ok s ∧ Draft s a.ambient [] [] made b := by
  have hmakes : Runs (newSystem (α := α) none) a fun r b => r = .ok a.systems.size ∧
      b = { a with configs := a.configs.push a.ambient, systems := a.systems.push ⟨a.configs.size, [], [], []⟩ } := by
    refine runs_bind (runs_read (runs_read (runs_after_change (runs_pure ?_))))
    rw [then_ok]
    exact runs_read (runs_after_change (runs_pure ⟨rfl, rfl⟩))
  refine (hmakes.and (runs_coherent h (.newSystem none) (List.nil_subset _))).mono ?_
  rintro _ _ ⟨⟨rfl, rfl⟩, hcoherent⟩
  have hsystem : Assembly.system { a with
      configs := a.configs.push a.ambient, systems := a.systems.push ⟨a.configs.size, [], [], []⟩ } a.systems.size =
        ⟨a.configs.size, [], [], []⟩ := (Table.get_push ..).trans (if_pos rfl)
  refine ⟨_, rfl, hcoherent, ?_, by rw [hsystem]; rfl, fun p hp => absurd hp List.not_mem_nil, List.nodup_nil,
    fun p hp => absurd hp List.not_mem_nil, List.nodup_nil⟩
  rw [hsystem]
  exact (Table.get_push ..).trans (if_pos rfl)

end Act

/-! ### One object more -/

section Options

variable [Scalar α]

/-- The mass that a node is given when it is made. -/
theorem Node.mass_create (x y : α) (base : Bool) (name : Option String) :
    (Node.create x y base (some 1) name).mass = 1 := ite_self 1

/-- The marker stands for what is there. -/
theorem Spec.settle_const (now : α) : (Spec.marker "const").settle (.ok now) = .ok (some (.fixed now)) := by
  have hmarker : isCurrentMarker "const" = true := by decide
  have hcoerce : (Spec.marker "const" : Spec α).coerce = .ok .current := by
    unfold coerce
    dsimp only
    rw [if_pos hmarker]
  unfold settle
  rw [hcoerce]
  rfl

theorem Constraint.pair_ok {node : NodeId → Node α} {first second : NodeId} {o : PairOptions α} {direction : Direction}
    {length? angle? : Option (Target α)} (hne : first ≠ second)
    (hdirection : Direction.ofValue? (o.direction.getD (.int 0)) = some direction)
    (hlength : (o.length.getD .absent).settle (.ok ((node first).vectorTo (node second)).length) = .ok length?)
    (hangle : (o.angle.getD .absent).settle (.ok ((node first).vectorTo (node second)).angle) = .ok angle?) :
    Constraint.pair node first second o =
      .ok ⟨o.id.join, .pair first second direction, none, [], length?, angle?⟩ := by
  unfold Constraint.pair
  rw [if_neg hne]
  simp only [hdirection, Shape.length, Shape.angle, hlength, hangle]
  rfl

end Options

namespace Assembly.Draft

open Act

variable [Scalar α] {a : Assembly α} {s : SystemId} {cfg : Config α} {nodes : List (NodeId × Node α)}
  {constraints : List (ConstraintId × Constraint α)} {made : List Reference}

/-- Numbers stay different when the next one is given out. -/
theorem nodup_concat {β : Type} {table : List (Nat × β)} {size : Nat} (hnodup : (table.map Prod.fst).Nodup)
    (hlt : ∀ p ∈ table, p.1 < size) (x : β) : ((table ++ [(size, x)]).map Prod.fst).Nodup := by
  rw [List.map_append]
  refine List.nodup_append.mpr ⟨hnodup, List.nodup_singleton _, fun n hn m hm => ?_⟩
  obtain ⟨p, hp, rfl⟩ := List.mem_map.mp hn
  obtain rfl := List.mem_singleton.mp hm
  exact Nat.ne_of_lt (hlt p hp)

/-- A new node takes the next number. -/
theorem runs_node (h : Draft s cfg nodes constraints made a) (x y : α) (o : NodeOptions α) :
    Runs (Act.node s x y o) a fun r b => ∃ n, r = .ok n ∧ Draft s cfg (nodes ++ [(n, o.node x y)]) constraints made b := by
  have hmakes : Runs (Act.node s x y o) a fun r b => r = .ok a.nodes.size ∧
      b = ({ a with nodes := a.nodes.push (o.node x y) } : Assembly α).enlist s a.nodes.size :=
    Act.runs_node ⟨rfl, rfl⟩
  refine (hmakes.and (runs_coherent h.coherent (.node s x y o) (List.nil_subset _))).mono ?_
  rintro _ _ ⟨⟨rfl, rfl⟩, hcoherent⟩
  set a' : Assembly α := { a with nodes := a.nodes.push (o.node x y) } with ha'
  obtain ⟨_, henlist⟩ := Assembly.onlySystems_enlist a' s a.nodes.size
  have hnodes : (a'.enlist s a.nodes.size).nodes = a'.nodes := by rw [henlist]
  have hconfigs : (a'.enlist s a.nodes.size).configs = a'.configs := by rw [henlist]
  have hsame := Assembly.sameObjects_enlist a' s a.nodes.size
  have hnode (n : NodeId) : (a'.enlist s a.nodes.size).node n = if n = a.nodes.size then o.node x y else a.node n := by
    unfold Assembly.node
    rw [hnodes]
    exact Table.get_push ..
  have hsystem := Assembly.system_enlist a' s s a.nodes.size
  rw [if_pos rfl] at hsystem
  refine ⟨_, rfl, hcoherent, ?_, ?_, ?_, ?_, fun p hp => ?_, h.distinct⟩
  · unfold Assembly.config
    rw [hconfigs, hsystem]
    exact h.config
  · rw [hsystem]
    exact h.listed
  · intro p hp
    rw [hnodes, Table.size_push, hnode]
    rcases List.mem_append.mp hp with hp | hp
    · obtain ⟨hsize, hp⟩ := h.node p hp
      rw [if_neg (Nat.ne_of_lt hsize), hp]
      exact ⟨Nat.lt_succ_of_lt hsize, rfl⟩
    · obtain rfl := List.mem_singleton.mp hp
      rw [if_pos rfl]
      exact ⟨Nat.lt_succ_self _, rfl⟩
  · exact nodup_concat h.apart (fun p hp => (h.node p hp).1) _
  · rw [hsame.constraints, hsame.constraint]
    exact h.constraint p hp

/-- A system takes a constraint whose identifier is not in the draft yet. -/
theorem refusal?_push (h : Draft s cfg nodes constraints made a) {k : Constraint α} {id : String} (howner : k.owner = none)
    (hid : k.id = some id) (hfresh : ∀ p ∈ constraints, p.2.id ≠ some id) :
    Assembly.refusal? { a with constraints := a.constraints.push k } s a.constraints.size = none := by
  have hnew : Assembly.constraint { a with constraints := a.constraints.push k } a.constraints.size = k :=
    (Assembly.constraint_push a k _).trans (if_pos rfl)
  refine Assembly.refusal?_eq_none_iff.mpr ⟨Or.inl ?_, fun id' hown d hd => ?_⟩
  · rw [hnew, howner]
  · -- what has the identifier in the system is in the draft
    rw [hnew, hid] at hown
    obtain ⟨hd, hdid⟩ := (h.coherent.consistent.byId?_iff s id' d).mp hd
    rw [h.listed] at hd
    obtain ⟨p, hp, rfl⟩ := List.mem_map.mp hd
    rw [(h.constraint p hp).2] at hdid
    exact absurd (hdid.trans hown.symm) (hfresh p hp)

/-- A pair of two drafted nodes takes the next number, under an identifier that is new.  It belongs to the system, and its
targets are those that its options settle for. -/
theorem runs_pair (h : Draft s cfg nodes constraints made a) {first second : NodeId} {v w : Node α}
    (hfirst : (first, v) ∈ nodes) (hsecond : (second, w) ∈ nodes) (hne : first ≠ second) {o : PairOptions α}
    {id : String} {direction : Direction} {length? angle? : Option (Target α)} (hid : o.id.join = some id)
    (hfresh : ∀ p ∈ constraints, p.2.id ≠ some id)
    (hdirection : Direction.ofValue? (o.direction.getD (.int 0)) = some direction)
    (hlength : (o.length.getD .absent).settle (.ok (v.vectorTo w).length) = .ok length?)
    (hangle : (o.angle.getD .absent).settle (.ok (v.vectorTo w).angle) = .ok angle?)
    (hrefs : (o.length.getD .absent).references ++ (o.angle.getD .absent).references ⊆ made) :
    Runs (Act.pair s first second o) a fun r b => ∃ c, r = .ok c ∧ Draft s cfg nodes
      (constraints ++ [(c, ⟨some id, .pair first second direction, some s, [], length?, angle?⟩)]) made b := by
  set k : Constraint α := ⟨some id, .pair first second direction, none, [], length?, angle?⟩ with hkdef
  have hv : a.node first = v := (h.node _ hfirst).2
  have hw : a.node second = w := (h.node _ hsecond).2
  subst hv hw
  have hk : Constraint.pair a.node first second o = .ok k := by
    rw [Constraint.pair_ok hne hdirection hlength hangle, hid]
  set a' : Assembly α := { a with constraints := a.constraints.push k } with ha'
  have hconstraint (d : ConstraintId) : a'.constraint d = if d = a.constraints.size then k else a.constraint d :=
    Assembly.constraint_push a k d
  -- what is refused is a second owner or a second use of an identifier, and neither is the case
  have hfree : a'.refusal? s a.constraints.size = none := h.refusal?_push rfl rfl hfresh
  have hmakes : Runs (Act.pair s first second o) a fun r b => r = .ok a.constraints.size ∧
      b = a'.join s a.constraints.size := by
    refine Act.runs_pair (fun _ _ hrefusal => ?_) (runs_bind (runs_read (runs_bind (runs_ofExcept ?_))))
    · exact nomatch hk.symm.trans hrefusal
    rw [hk, then_ok]
    refine runs_enter ?_
    rw [then_ok]
    refine runs_add (fun fault hfault => ?_) fun _ => ⟨rfl, rfl⟩
    exact nomatch hfree.symm.trans hfault
  refine (hmakes.and (runs_coherent h.coherent (.pair s first second o) hrefs)).mono ?_
  rintro _ _ ⟨⟨rfl, rfl⟩, hcoherent⟩
  obtain ⟨_, _, hjoin⟩ := Assembly.join_eq a' s a.constraints.size
  have hnodes : (a'.join s a.constraints.size).nodes = a'.nodes := by rw [hjoin]
  have hconfigs : (a'.join s a.constraints.size).configs = a'.configs := by rw [hjoin]
  have hsystem := Assembly.system_join a' s s a.constraints.size
  rw [if_pos rfl] at hsystem
  refine ⟨_, rfl, hcoherent, ?_, ?_, ?_, h.apart, ?_, ?_⟩
  · unfold Assembly.config
    rw [hconfigs, hsystem]
    exact h.config
  · rw [hsystem, List.map_append]
    exact congrArg (· ++ [a.constraints.size]) h.listed
  · unfold Assembly.node
    rw [hnodes]
    exact h.node
  -- the constraints drafted before have smaller numbers, and joining writes only the new one
  · intro p hp
    have hsize : a'.constraints.size = a.constraints.size + 1 := Table.size_push ..
    rw [Assembly.size_join, Assembly.constraint_join, hsize, Nat.max_self]
    rcases List.mem_append.mp hp with hp | hp
    · obtain ⟨hlt, hp⟩ := h.constraint p hp
      rw [if_neg (Nat.ne_of_gt hlt), hconstraint, if_neg (Nat.ne_of_lt hlt), hp]
      exact ⟨Nat.lt_succ_of_lt hlt, rfl⟩
    · obtain rfl := List.mem_singleton.mp hp
      rw [if_pos rfl, hconstraint, if_pos rfl]
      exact ⟨Nat.lt_succ_self _, rfl⟩
  · exact nodup_concat h.distinct (fun p hp => (h.constraint p hp).1) _

/-- A target between a constraint and half a turn ahead of it has a reference of its own. -/
theorem runs_anglePosFrom (h : Draft s cfg nodes constraints made a) (ref : String) :
    Runs (anglePosFrom ref) a fun r b => ∃ name key, r = .ok ⟨name, .around ⟨key, ref, .angle⟩ 0 Scalar.pi⟩ ∧
      Draft s cfg nodes constraints (made ++ [⟨key, ref, .angle⟩]) b := by
  have hmakes : Runs (anglePosFrom (α := α) ref) a fun r b => ∃ name, r = .ok ⟨name, .around ⟨a.nextKey, ref, .angle⟩
      0 Scalar.pi⟩ ∧ b = { a with nextKey := a.nextKey + 1 } :=
    runs_traced (runs_traced (runs_after_newReference (runs_pure ⟨_, rfl, rfl⟩)))
  refine hmakes.mono ?_
  rintro _ _ ⟨name, rfl, rfl⟩
  have hnew : Combinator.New a ⟨name, .around ⟨a.nextKey, ref, .angle⟩ 0 Scalar.pi⟩
      { a with nextKey := a.nextKey + 1 } := ⟨rfl, rfl, rfl⟩
  exact ⟨name, _, rfl, h.coherent.make hnew, h.config, h.listed, h.node, h.apart, h.constraint, h.distinct⟩

/-- The system can be given a configuration of its own. -/
theorem runs_useConfig (h : Draft s cfg nodes constraints made a) (cfg' : Config α) :
    Runs (do useConfig s (← newConfig cfg')) a fun r b => r = .ok () ∧ Draft s cfg' nodes constraints made b := by
  have hnew : Runs (newConfig cfg') a fun r b => r = .ok a.configs.size ∧ b = { a with configs := a.configs.push cfg' } :=
    runs_read (runs_after_change (runs_pure ⟨rfl, rfl⟩))
  refine runs_bind ((hnew.and (runs_coherent h.coherent (.newConfig cfg') (List.nil_subset _))).mono ?_)
  rintro _ _ ⟨⟨rfl, rfl⟩, hcoherent⟩
  rw [then_ok]
  set a' : Assembly α := { a with configs := a.configs.push cfg' } with ha'
  have huse : Runs (useConfig s a.configs.size) a' fun r b => r = .ok () ∧
      b = a'.setSystem s { a'.system s with config := a.configs.size } := runs_change ⟨rfl, rfl⟩
  refine (huse.and (runs_coherent hcoherent (.useConfig s a.configs.size) (List.nil_subset _))).mono ?_
  rintro _ _ ⟨⟨rfl, rfl⟩, hcoherent'⟩
  have hsystem : (a'.setSystem s { a'.system s with config := a.configs.size }).system s =
      { a.system s with config := a.configs.size } := by
    rw [Assembly.system_setSystem, if_pos rfl]
    rfl
  refine ⟨rfl, hcoherent', ?_, ?_, h.node, h.apart, h.constraint, h.distinct⟩
  · rw [hsystem]
    exact (Table.get_push ..).trans (if_pos rfl)
  · rw [hsystem]
    exact h.listed

end Assembly.Draft

end Linkage
