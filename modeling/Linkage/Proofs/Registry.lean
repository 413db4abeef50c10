import Linkage.Proofs.Quiet
import Mathlib.Data.List.Induction
import Mathlib.Tactic.Set

/-!
# Linkage.Proofs.Registry — what systems have registered, after any run of operations

An operation registers nothing, lists one node, or registers one constraint with its nodes (`registration`), and
whatever else it does is quiet.  From these three cases follows that the registry stays consistent (`Consistent`), that
it only grows (`Grows`), and that node lists have the order of first registration (`run_registryLaws`).
-/

namespace Linkage

variable {α : Type}

namespace Assembly

/-! ### Consistent registries -/

/-- Lists, owners and indices agree with each other. -/
structure Consistent (a : Assembly α) : Prop where
  nodup : ∀ s, (a.system s).nodes.Nodup
  listed : ∀ s, ∀ c ∈ (a.system s).constraints, (a.constraint c).shape.nodes ⊆ (a.system s).nodes
  owner_iff : ∀ s c, c ∈ (a.system s).constraints ↔ (a.constraint c).owner = some s
  made : ∀ s, ∀ c ∈ (a.system s).constraints, c < a.constraints.size
  byId?_iff : ∀ s id c,
    a.byId? s id = some c ↔ c ∈ (a.system s).constraints ∧ (a.constraint c).id = some id

/-- What was registered stays so: lists get longer at the end only, and identifiers stand for what they stood for. -/
structure Grows (a b : Assembly α) : Prop where
  nodes : ∀ s, (a.system s).nodes <+: (b.system s).nodes
  constraints : ∀ s, (a.system s).constraints <+: (b.system s).constraints
  byId? : ∀ s id c, a.byId? s id = some c → b.byId? s id = some c
  shape : ∀ c < a.constraints.size, (b.constraint c).shape = (a.constraint c).shape

theorem consistent_empty [Scalar α] (ambient : Config α) : Consistent (Assembly.empty ambient) where
  nodup _ := List.nodup_nil
  listed _ _ hc := absurd hc List.not_mem_nil
  owner_iff _ _ := ⟨fun hc => absurd hc List.not_mem_nil, fun h => nomatch h⟩
  made _ _ hc := absurd hc List.not_mem_nil
  byId?_iff _ _ _ := ⟨(fun h => nomatch h), fun h => absurd h.1 List.not_mem_nil⟩

variable {a b : Assembly α} {s : SystemId}

/-- No constraint is in the lists of two systems. -/
theorem Consistent.one_system (h : Consistent a) {t : SystemId} {c : ConstraintId}
    (hs : c ∈ (a.system s).constraints) (ht : c ∈ (a.system t).constraints) : s = t := by
  have howner : (a.constraint c).owner = some s := (h.owner_iff s c).mp hs
  have howner' : (a.constraint c).owner = some t := (h.owner_iff t c).mp ht
  exact Option.some.inj (howner.symm.trans howner')

/-- Two constraints of a system do not share an identifier. -/
theorem Consistent.ids_differ (h : Consistent a) {c d : ConstraintId} (hc : c ∈ (a.system s).constraints)
    (hd : d ∈ (a.system s).constraints) (hcd : c ≠ d) {id : String} (hcid : (a.constraint c).id = some id) :
    (a.constraint d).id ≠ some id := by
  intro hdid
  have hlookup : a.byId? s id = some c := (h.byId?_iff s id c).mpr ⟨hc, hcid⟩
  have hlookup' : a.byId? s id = some d := (h.byId?_iff s id d).mpr ⟨hd, hdid⟩
  exact hcd (Option.some.inj (hlookup.symm.trans hlookup'))

/-- The configuration in force for a constraint is that of its system. -/
theorem Consistent.configOf [Scalar α] (h : Consistent a) {c : ConstraintId} (hc : c ∈ (a.system s).constraints) :
    a.configOf c = a.config (a.system s).config := by
  unfold Assembly.configOf
  rw [(h.owner_iff s c).mp hc]

theorem Consistent.sameRegistry (h : Consistent a) (hab : SameRegistry a b) : Consistent b where
  nodup t := by rw [hab.nodes]; exact h.nodup t
  listed t c hc := by
    rw [hab.constraints] at hc
    rw [hab.nodes, (hab.made c (h.made t c hc)).2]
    exact h.listed t c hc
  owner_iff t c := by rw [hab.constraints, hab.owner]; exact h.owner_iff t c
  made t c hc := by
    rw [hab.constraints] at hc
    exact Nat.lt_of_lt_of_le (h.made t c hc) hab.size
  byId?_iff t id c := by
    rw [hab.byId?, hab.constraints, h.byId?_iff]
    refine and_congr_right fun hc => ?_
    rw [(hab.made c (h.made t c hc)).1]

theorem SameRegistry.grows (hab : SameRegistry a b) : Grows a b where
  nodes t := (hab.nodes t).symm ▸ List.prefix_refl _
  constraints t := (hab.constraints t).symm ▸ List.prefix_refl _
  byId? t id c h := by rw [hab.byId?]; exact h
  shape c hc := (hab.made c hc).2

theorem Grows.trans {c : Assembly α} (h : Grows a b) (h' : Grows b c) (hsize : a.constraints.size ≤ b.constraints.size) :
    Grows a c where
  nodes s := (h.nodes s).trans (h'.nodes s)
  constraints s := (h.constraints s).trans (h'.constraints s)
  byId? s id d hd := h'.byId? s id d (h.byId? s id d hd)
  shape d hd := (h'.shape d (Nat.lt_of_lt_of_le hd hsize)).trans (h.shape d hd)

/-! ### Listing a node -/

section Enlist

variable (a) (s) (t : SystemId) (n : NodeId)

theorem nodes_enlist : ((a.enlist s n).system t).nodes =
    (if s = t then [n] else []).foldl listNode (a.system t).nodes := by
  rw [system_enlist]
  split
  case isTrue hst => rw [hst]; rfl
  case isFalse => rfl

theorem constraints_enlist : ((a.enlist s n).system t).constraints = (a.system t).constraints := by
  rw [system_enlist]
  split
  case isTrue hst => rw [hst]
  case isFalse => rfl

theorem byId?_enlist (id : String) : (a.enlist s n).byId? t id = a.byId? t id := by
  unfold byId?
  rw [system_enlist]
  split
  case isTrue hst => rw [hst]
  case isFalse => rfl

end Enlist

theorem Consistent.enlist (h : Consistent a) (s : SystemId) (n : NodeId) : Consistent (a.enlist s n) where
  nodup t := by rw [nodes_enlist]; exact nodup_foldl_listNode (h.nodup t) _
  listed t c hc := by
    rw [constraints_enlist] at hc
    rw [nodes_enlist, (sameObjects_enlist a s n).constraint]
    exact List.Subset.trans (h.listed t c hc) (prefix_foldl_listNode ..).subset
  owner_iff t c := by rw [constraints_enlist, (sameObjects_enlist a s n).constraint]; exact h.owner_iff t c
  made t c hc := by
    rw [constraints_enlist] at hc
    rw [(sameObjects_enlist a s n).constraints]
    exact h.made t c hc
  byId?_iff t id c := by
    rw [byId?_enlist, constraints_enlist, (sameObjects_enlist a s n).constraint]; exact h.byId?_iff t id c

theorem grows_enlist (a : Assembly α) (s : SystemId) (n : NodeId) : Grows a (a.enlist s n) where
  nodes t := by rw [nodes_enlist]; exact prefix_foldl_listNode ..
  constraints t := (constraints_enlist a s t n).symm ▸ List.prefix_refl _
  byId? t id c h := by rw [byId?_enlist]; exact h
  shape c _ := by rw [(sameObjects_enlist a s n).constraint]

/-! ### Registering a constraint -/

section Join

variable (a) (s) (t : SystemId) (c d : ConstraintId)

theorem nodes_join : ((a.join s c).system t).nodes =
    (if s = t then (a.constraint c).shape.nodes else []).foldl listNode (a.system t).nodes := by
  rw [system_join]
  split
  case isTrue hst => rw [hst]
  case isFalse => rfl

theorem constraints_join : ((a.join s c).system t).constraints =
    (a.system t).constraints ++ if s = t then [c] else [] := by
  rw [system_join]
  split
  case isTrue hst => rw [hst]
  case isFalse => rw [List.append_nil]

theorem mem_constraints_join :
    d ∈ ((a.join s c).system t).constraints ↔ d ∈ (a.system t).constraints ∨ s = t ∧ d = c := by
  rw [constraints_join, List.mem_append]
  split
  case isTrue hst => simp [hst]
  case isFalse hst => simp [hst]

theorem shape_join : ((a.join s c).constraint d).shape = (a.constraint d).shape := by
  rw [constraint_join]
  split
  case isTrue hcd => rw [hcd]
  case isFalse => rfl

theorem id_join : ((a.join s c).constraint d).id = (a.constraint d).id := by
  rw [constraint_join]
  split
  case isTrue hcd => rw [hcd]
  case isFalse => rfl

end Join

section Registered

variable {c : ConstraintId}

/-- The new owner is the system that lists the constraint, as it had none or that one before. -/
theorem Consistent.owner_iff_join (h : Consistent a) (hfree : a.refusal? s c = none) (t : SystemId) (d : ConstraintId) :
    d ∈ ((a.join s c).system t).constraints ↔ ((a.join s c).constraint d).owner = some t := by
  obtain ⟨howner, -⟩ := refusal?_eq_none_iff.mp hfree
  rw [mem_constraints_join, constraint_join, h.owner_iff]
  by_cases hcd : c = d
  · subst hcd
    rw [if_pos rfl]
    constructor
    · rintro (ht | ⟨rfl, -⟩)
      · rcases howner with hnone | hs
        · rw [hnone] at ht
          exact nomatch ht
        · exact hs.symm.trans ht
      · rfl
    · intro ht
      exact Or.inr ⟨Option.some.inj ht, rfl⟩
  · rw [if_neg hcd]
    exact or_iff_left fun hd => hcd hd.2.symm

/-- The identifier is looked up to the new constraint, as no other one had it. -/
theorem Consistent.byId?_iff_join (h : Consistent a) (hfree : a.refusal? s c = none) (t : SystemId) (id : String)
    (d : ConstraintId) : (a.join s c).byId? t id = some d ↔
      d ∈ ((a.join s c).system t).constraints ∧ ((a.join s c).constraint d).id = some id := by
  obtain ⟨-, hid⟩ := refusal?_eq_none_iff.mp hfree
  rw [byId?_join hfree, mem_constraints_join, id_join]
  -- if the identifier is that of the new constraint, nobody else in the system can have it, since it was not refused
  by_cases hnew : s = t ∧ (a.constraint c).id = some id
  · rw [if_pos hnew]
    obtain ⟨rfl, hown⟩ := hnew
    constructor
    · rintro ⟨⟩
      exact ⟨Or.inr ⟨rfl, rfl⟩, hown⟩
    · rintro ⟨hd | ⟨-, rfl⟩, hdid⟩
      · have hold : a.byId? s id = some d := (h.byId?_iff s id d).mpr ⟨hd, hdid⟩
        rw [hid id hown d hold]
      · rfl
  · rw [if_neg hnew, h.byId?_iff]
    refine and_congr_left fun hdid => (or_iff_left fun hd => ?_).symm
    obtain ⟨hst, rfl⟩ := hd
    exact hnew ⟨hst, hdid⟩

/-- Registering a constraint that is not refused keeps the registry consistent. -/
theorem Consistent.join (h : Consistent a) (hfree : a.refusal? s c = none) : Consistent (a.join s c) where
  nodup t := by
    rw [nodes_join]
    exact nodup_foldl_listNode (h.nodup t) _
  listed t d hd := by
    rw [nodes_join, shape_join]
    intro n hn
    rw [mem_foldl_listNode]
    rcases (mem_constraints_join ..).mp hd with hd | ⟨hst, rfl⟩
    · exact Or.inl (h.listed t d hd hn)
    · rw [if_pos hst]
      exact Or.inr hn
  owner_iff := h.owner_iff_join hfree
  made t d hd := by
    rw [size_join]
    rcases (mem_constraints_join ..).mp hd with hd | ⟨-, rfl⟩
    · exact Nat.lt_of_lt_of_le (h.made t d hd) (Nat.le_max_left ..)
    · exact Nat.lt_of_lt_of_le (Nat.lt_succ_self d) (Nat.le_max_right ..)
  byId?_iff := h.byId?_iff_join hfree

theorem grows_join (hfree : a.refusal? s c = none) : Grows a (a.join s c) where
  nodes t := by rw [nodes_join]; exact prefix_foldl_listNode ..
  constraints t := by rw [constraints_join]; exact List.prefix_append ..
  byId? t id d hd := by
    obtain ⟨-, hid⟩ := refusal?_eq_none_iff.mp hfree
    rw [byId?_join hfree]
    split
    case isTrue hnew =>
      obtain ⟨rfl, hown⟩ := hnew
      rw [hid id hown d hd]
    case isFalse => exact hd
  shape d _ := shape_join ..

end Registered

/-! ### What an operation registers -/

/-- From `a` to `b` the nodes `ns` are registered with their systems, alone or with a constraint, and what else happens
is quiet. -/
inductive Registration (refs : List Reference) (a b : Assembly α) (ns : SystemId → List NodeId) : Prop where
  | nothing (quiet : Quiet refs a b) (none : ∀ s, ns s = [])
  | node (a' : Assembly α) (s : SystemId) (n : NodeId) (quiet : Quiet refs a a') (listed : b = a'.enlist s n)
      (one : ∀ t, ns t = if s = t then [n] else [])
  | constraint (a' : Assembly α) (s : SystemId) (c : ConstraintId) (quiet : Quiet refs a a')
      (free : a'.refusal? s c = none) (joined : b = a'.join s c)
      (all : ∀ t, ns t = if s = t then (a'.constraint c).shape.nodes else [])

namespace Registration

variable {refs : List Reference} {ns : SystemId → List NodeId}

theorem consistent (hab : Registration refs a b ns) (h : Consistent a) : Consistent b := by
  cases hab with
  | nothing quiet _ => exact h.sameRegistry quiet.toSameRegistry
  | node a' s n quiet listed _ => subst listed; exact (h.sameRegistry quiet.toSameRegistry).enlist s n
  | constraint a' s c quiet free joined _ => subst joined; exact (h.sameRegistry quiet.toSameRegistry).join free

theorem grows (hab : Registration refs a b ns) : Grows a b := by
  cases hab with
  | nothing quiet _ => exact quiet.grows
  | node a' s n quiet listed _ => subst listed; exact quiet.grows.trans (grows_enlist a' s n) quiet.size
  | constraint a' s c quiet free joined _ => subst joined; exact quiet.grows.trans (grows_join free) quiet.size

theorem size (hab : Registration refs a b ns) : a.constraints.size ≤ b.constraints.size := by
  cases hab with
  | nothing quiet _ => exact quiet.size
  | node a' s n quiet listed _ =>
    subst listed
    rw [(sameObjects_enlist a' s n).constraints]
    exact quiet.size
  | constraint a' s c quiet free joined _ =>
    subst joined
    rw [size_join]
    exact Nat.le_trans quiet.size (Nat.le_max_left ..)

theorem nodes (hab : Registration refs a b ns) (s : SystemId) :
    (b.system s).nodes = (ns s).foldl listNode (a.system s).nodes := by
  cases hab with
  | nothing quiet hnone => rw [hnone, quiet.nodes]; rfl
  | node a' s' n quiet listed one => subst listed; rw [one, nodes_enlist, quiet.nodes]
  | constraint a' s' c quiet free joined all => subst joined; rw [all, nodes_join, quiet.nodes]

end Registration

end Assembly

open Assembly (Consistent Grows Quiet Registration sameRegistry_of_tables)

namespace Operation

/-- The nodes that an operation registers with a system, in order, where it does not fail. -/
def registers (s : SystemId) (a : Assembly α) : Operation α → List NodeId
  | .addNode t n => if t = s then [n] else []
  | .node t _ _ _ => if t = s then [a.nodes.size] else []
  | .add t c => if t = s then (a.constraint c).shape.nodes else []
  | .pair t first second _ => if t = s then [first, second] else []
  | .triple t apex ray arm _ => if t = s then [apex, ray, arm] else []
  | _ => []

/-- What an operation does to the registry, when it ends with this answer. -/
def Registers (op : Operation α) (a : Assembly α) {β : Type} (r : Except (Fault α) β) (b : Assembly α) : Prop :=
  Registration op.references a b fun s => if r.isOk then op.registers s a else []

theorem registers_of_quiet {op : Operation α} {β : Type} {p : Act α β} {a : Assembly α}
    (h : Act.Runs p a fun _ b => Quiet op.references a b) (hnone : ∀ s, op.registers s a = []) :
    Act.Runs p a (op.Registers a) := by
  refine h.mono fun r b hab => .nothing hab fun s => ?_
  rw [hnone, ite_self]

variable [Scalar α]

/-- The nodes that an operation registers with a system in a session; one that fails registers none. -/
def enlists (s : SystemId) (st : Session α) (op : Operation α) : List NodeId :=
  if (op.act.2.answer st).isOk then op.registers s st.assembly else []

/-- A constraint that is made to be registered: refused before or after it was made, or registered with its nodes. -/
theorem registers_of_makes {op : Operation α} {p : Act α ConstraintId} {a : Assembly α} {s : SystemId}
    {ns : List NodeId} {length angle : Spec α} (h : Act.Makes p a ns length angle)
    (hrefs : length.references ++ angle.references = op.references)
    (hns : ∀ t, op.registers t a = if s = t then ns else []) : Act.Runs (p >>= Act.add s) a (op.Registers a) := by
  refine h.add.mono fun r b hrb => ?_
  rcases hrb with ⟨fault, rfl, rfl⟩ | ⟨k, hk, hrb⟩
  · exact .nothing (.refl _ _) fun t => rfl
  · have hmade := Assembly.quiet_push a hk
    rw [hrefs] at hmade
    rcases hrb with ⟨fault, rfl, rfl⟩ | ⟨rfl, hfree, rfl⟩
    · exact .nothing hmade fun t => rfl
    · refine .constraint _ s _ hmade hfree rfl fun t => ?_
      rw [Assembly.constraint_push, if_pos rfl, hk.nodes]
      exact hns t

/-- Every operation registers nothing, one node, or one constraint with its nodes. -/
theorem runs_registers (op : Operation α) (a : Assembly α) : Act.Runs op.act.2 a (op.Registers a) := by
  have htables {b : Assembly α} (hsystems : b.systems = a.systems) (hconstraints : b.constraints = a.constraints)
      (hfound : b.found = a.found) (hkey : b.nextKey = a.nextKey) : Quiet op.references a b :=
    Assembly.quiet_of_tables hsystems hconstraints hfound (Nat.le_of_eq hkey.symm)
  -- A call that cannot be written fails before its work.
  have hrefused (fault : Fault α) : op.Registers a (.error fault : Except (Fault α) ConstraintId) a :=
    .nothing (.refl _ a) fun t => rfl
  have hchange (g : Assembly α → Assembly α) (h : Quiet op.references a (g a)) :
      Act.Runs (Act.change g) a fun _ b => Quiet op.references a b := Act.runs_change h
  cases op with
  | newNode x y o => exact registers_of_quiet (Act.runs_newNode (htables rfl rfl rfl rfl)) fun s => rfl
  | modifyNode n f =>
    exact registers_of_quiet (hchange (fun a => a.setNode n (f (a.node n))) (htables rfl rfl rfl rfl)) fun s => rfl
  | addNode s n => exact Act.runs_addNode (.node a s n (.refl _ a) rfl fun t => rfl)
  | node s x y o =>
    exact Act.runs_node (.node { a with nodes := a.nodes.push (o.node x y) } s a.nodes.size (htables rfl rfl rfl rfl)
      rfl fun t => rfl)
  | newPair first second o => exact registers_of_quiet (Act.makes_newPair a first second o).quiet fun s => rfl
  | newTriple apex ray arm o =>
    exact registers_of_quiet (Act.makes_newTriple a apex ray arm o).quiet fun s => rfl
  | add s c =>
    exact Act.runs_add (fun fault _ => .nothing (.refl _ a) fun t => rfl)
      fun hfree => .constraint a s c (.refl _ a) hfree rfl fun t => rfl
  | pair s first second o =>
    exact Act.runs_pair (fun fault _ _ => hrefused fault)
      (registers_of_makes (Act.makes_newPair a first second o) rfl fun t => rfl)
  | triple s apex ray arm o =>
    exact Act.runs_triple (fun fault _ _ => hrefused fault)
      (registers_of_makes (Act.makes_newTriple a apex ray arm o) rfl fun t => rfl)
  | setLengthTarget c spec => exact registers_of_quiet (Act.quiet_setLengthTarget c spec a) fun s => rfl
  | setAngleTarget c spec => exact registers_of_quiet (Act.quiet_setAngleTarget c spec a) fun s => rfl
  | make recipe => exact registers_of_quiet (Act.quiet_make recipe a) fun s => rfl
  | evaluate c t => exact registers_of_quiet (Act.quiet_evaluate c t a) fun s => rfl
  | targetLength c => exact registers_of_quiet ((Act.relaxed_targetLength c).quiet a) fun s => rfl
  | targetAngle c => exact registers_of_quiet ((Act.relaxed_targetAngle c).quiet a) fun s => rfl
  | resolve c ref => exact registers_of_quiet (Act.runs_resolve (htables rfl rfl rfl rfl)) fun s => rfl
  | byId? s id => exact registers_of_quiet (Act.runs_byId? (htables rfl rfl rfl rfl)) fun s => rfl
  | correctOne c => exact registers_of_quiet ((Act.relaxed_correctOne c).quiet a) fun s => rfl
  | residualsOf c => exact registers_of_quiet ((Act.relaxed_residualsOf c).quiet a) fun s => rfl
  | describe c => exact registers_of_quiet ((Act.relaxed_describe c).quiet a) fun s => rfl
  | prepare first c =>
    exact registers_of_quiet (hchange (·.prepare first c) (Assembly.relaxed_prepare first a c).quiet) fun s => rfl
  | restore c => exact registers_of_quiet (hchange (·.restore c) (Assembly.relaxed_restore a c).quiet) fun s => rfl
  | correct s => exact registers_of_quiet ((Act.relaxed_correct s).quiet a) fun s => rfl
  | residuals s => exact registers_of_quiet ((Act.relaxed_residuals s).quiet a) fun s => rfl
  | solve s limit => exact registers_of_quiet ((Act.relaxed_solve s limit).quiet a) fun s => rfl
  | solveAnnounced s => exact registers_of_quiet ((Act.relaxed_solveAnnounced s).quiet a) fun s => rfl
  | log s level => exact registers_of_quiet ((Act.relaxed_log s level).quiet a) fun s => rfl
  | newConfig cfg => exact registers_of_quiet (Act.quiet_newConfig cfg a) fun s => rfl
  | copyAmbient => exact registers_of_quiet (Act.runs_read (Act.quiet_newConfig a.ambient a)) fun s => rfl
  | setAmbient k =>
    exact registers_of_quiet (hchange (fun a => { a with ambient := a.config k }) (htables rfl rfl rfl rfl)) fun s => rfl
  | modifyConfig k f =>
    exact registers_of_quiet (hchange (fun a => a.setConfig k (f (a.config k))) (htables rfl rfl rfl rfl)) fun s => rfl
  | newSystem config => exact registers_of_quiet (Act.quiet_newSystem config a) fun s => rfl
  | useConfig s k =>
    exact registers_of_quiet (hchange (fun a => a.setSystem s { a.system s with config := k })
      ((Assembly.sameRegistry_setConfig a s k).quiet rfl rfl (Nat.le_refl _))) fun s => rfl

/-- What an operation does to the registry of a session. -/
theorem registration (op : Operation α) (st : Session α) :
    Registration op.references st.assembly (op.after st).assembly fun s => op.enlists s st :=
  (op.runs_registers st.assembly).at_session

end Operation

/-! ### Whole runs -/

variable [Scalar α]

/-- The laws of the registry of a session, where `seen s` lists the nodes as they were registered with `s` so far, with
repetitions. -/
structure RegistryLaws (seen : SystemId → List NodeId) (st : Session α) : Prop where
  nodes_nodup : ∀ s, (st.assembly.system s).nodes.Nodup
  /-- Nodes have the order of their first registration. -/
  nodes_order : ∀ s, (st.assembly.system s).nodes = (seen s).eraseDups
  nodes_listed : ∀ s, ∀ c ∈ (st.assembly.system s).constraints, ∀ n ∈ (st.assembly.constraint c).shape.nodes,
    n ∈ (st.assembly.system s).nodes
  owner : ∀ s, ∀ c ∈ (st.assembly.system s).constraints, (st.assembly.constraint c).owner = some s
  one_system : ∀ s t c, c ∈ (st.assembly.system s).constraints → c ∈ (st.assembly.system t).constraints → s = t
  /-- An identifier is looked up to the constraint registered with it. -/
  byId?_iff : ∀ s id c, (Act.byId? s (some id)).answer st = .ok (some c) ↔
    c ∈ (st.assembly.system s).constraints ∧ (st.assembly.constraint c).id = some id
  ids_differ : ∀ s, ∀ c ∈ (st.assembly.system s).constraints, ∀ d ∈ (st.assembly.system s).constraints, c ≠ d →
    ∀ id, (st.assembly.constraint c).id = some id → (st.assembly.constraint d).id ≠ some id
  /-- No operation does more to a list than to append to it. -/
  appends : ∀ (op : Operation α) s, (st.assembly.system s).nodes <+: ((op.after st).assembly.system s).nodes ∧
    (st.assembly.system s).constraints <+: ((op.after st).assembly.system s).constraints

theorem consistent_run {st : Session α} (h : Consistent st.assembly) (ops : List (Operation α)) :
    Consistent (run ops st).assembly := by
  induction ops using List.reverseRecOn with
  | nil => exact h
  | append_singleton rest op ih =>
    rw [run_concat]
    exact (op.registration (run rest st)).consistent ih

/-- What is registered at some time of a run stays so to its end. -/
theorem grows_run (st : Session α) (ops : List (Operation α)) : Grows st.assembly (run ops st).assembly := by
  suffices h : Grows st.assembly (run ops st).assembly ∧
      st.assembly.constraints.size ≤ (run ops st).assembly.constraints.size from h.1
  induction ops using List.reverseRecOn with
  | nil => exact ⟨(sameRegistry_of_tables rfl rfl).grows, Nat.le_refl _⟩
  | append_singleton rest op ih =>
    have hstep := op.registration (run rest st)
    rw [run_concat]
    exact ⟨ih.1.trans hstep.grows ih.2, Nat.le_trans ih.2 hstep.size⟩

/-- A node list that had no repetitions has those of the registrations since left out. -/
theorem nodes_run {st : Session α} {s : SystemId} {seen : List NodeId}
    (h : (st.assembly.system s).nodes = seen.eraseDups) (ops : List (Operation α)) :
    ((run ops st).assembly.system s).nodes = (seen ++ gathered (Operation.enlists s) ops st).eraseDups := by
  induction ops using List.reverseRecOn with
  | nil => exact h.trans (congrArg List.eraseDups (List.append_nil seen).symm)
  | append_singleton rest op ih =>
    rw [run_concat, gathered_concat, (op.registration (run rest st)).nodes, ih, foldl_listNode_eraseDups,
      List.append_assoc]

theorem byId?_answer (st : Session α) (s : SystemId) (id : String) :
    (Act.byId? s (some id)).answer st = .ok (st.assembly.byId? s id) :=
  Act.Runs.at_session (Q := fun r _ => r = .ok _) (Act.runs_byId? rfl)

/-- Whatever operations are performed in a new session, in whatever order and whether they fail or not, the laws of the
registry hold afterwards. -/
theorem run_registryLaws (ambient : Config α) (journal : Journal α) (ops : List (Operation α)) :
    RegistryLaws (fun s => gathered (Operation.enlists s) ops ⟨.empty ambient, journal⟩)
      (run ops ⟨.empty ambient, journal⟩) := by
  set st := run ops ⟨.empty ambient, journal⟩
  have h : Consistent st.assembly := consistent_run (Assembly.consistent_empty ambient) ops
  have hnodes (s : SystemId) : (st.assembly.system s).nodes =
      ([] ++ gathered (Operation.enlists s) ops ⟨.empty ambient, journal⟩).eraseDups := nodes_run rfl ops
  exact {
    nodes_nodup := h.nodup
    nodes_order := hnodes
    nodes_listed := fun s c hc n hn => h.listed s c hc hn
    owner := fun s c hc => (h.owner_iff s c).mp hc
    one_system := fun s t c hs ht => h.one_system hs ht
    byId?_iff := fun s id c => by rw [byId?_answer, Except.ok.injEq, h.byId?_iff]
    ids_differ := fun s c hc d hd hcd id hcid => h.ids_differ hc hd hcd hcid
    appends := fun op s => ⟨(op.registration st).grows.nodes s, (op.registration st).grows.constraints s⟩ }

end Linkage
