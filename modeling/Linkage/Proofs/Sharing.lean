import Linkage.Proofs.Registry

/-!
# Linkage.Proofs.Sharing — who sees that a configuration changes

Configurations are objects with fields that can be assigned.  A system holds one of them, and several systems may hold
the same; the ambient configuration is none that anybody holds, and only copies lead to it and away from it.  What one
operation does to all of this is `Operation.Settles`, and `run_sharingLaws` says it of any run: the ambient configuration
changes where it is set and nowhere else, a system goes on to hold what it was given, and an object has at any time the
values that its assignments so far have left in it (`assigned`), for everybody who holds it.
-/

namespace Linkage

variable {α : Type}

/-! ### Operations on configurations -/

namespace Operation

/-- The operation gives other values to the ambient configuration. -/
def SetsAmbient : Operation α → Prop
  | .setAmbient _ => True
  | _ => False

/-- The operation makes the system hold another configuration. -/
def Replaces (s : SystemId) : Operation α → Prop
  | .useConfig t _ => t = s
  | _ => False

/-- The operation assigns fields of the configuration. -/
def Assigns (k : ConfigId) : Operation α → Prop
  | .modifyConfig l _ => l = k
  | _ => False

/-- The values of the configuration once the operation has assigned what it does. -/
def assign (k : ConfigId) : Operation α → Config α → Config α
  | .modifyConfig l f, cfg => if l = k then f cfg else cfg
  | _, cfg => cfg

end Operation

/-- The values of a configuration after the assignments of operations in a row. -/
def assigned (k : ConfigId) (ops : List (Operation α)) (cfg : Config α) : Config α :=
  ops.foldl (fun cfg op => op.assign k cfg) cfg

theorem assigned_eq_self {k : ConfigId} {ops : List (Operation α)} (h : ∀ op ∈ ops, ¬op.Assigns k) (cfg : Config α) :
    assigned k ops cfg = cfg := by
  unfold assigned
  induction ops with
  | nil => rfl
  | cons op rest ih =>
    obtain ⟨hop, hrest⟩ := List.forall_mem_cons.mp h
    have hassign : op.assign k cfg = cfg := by
      cases op with
      | modifyConfig l f => exact if_neg hop
      | _ => rfl
    rw [List.foldl_cons, hassign]
    exact ih hrest

namespace Assembly

/-! ### Operations that leave configurations alone -/

/-- `b` has the configurations of `a`, and every system holds in `b` what it holds in `a`. -/
structure SameSettings (a b : Assembly α) : Prop where
  configs : b.configs = a.configs
  ambient : b.ambient = a.ambient
  holds : ∀ s, (b.system s).config = (a.system s).config
  systems : a.systems.size ≤ b.systems.size

instance : IsPreorder (Assembly α) SameSettings where
  refl _ := ⟨rfl, rfl, fun _ => rfl, Nat.le_refl _⟩
  trans _ _ _ h h' := ⟨h'.configs.trans h.configs, h'.ambient.trans h.ambient, fun s => (h'.holds s).trans (h.holds s),
    Nat.le_trans h.systems h'.systems⟩

theorem sameSettings_of_tables {a b : Assembly α} (hsystems : b.systems = a.systems) (hconfigs : b.configs = a.configs)
    (hambient : b.ambient = a.ambient) : SameSettings a b := by
  refine ⟨hconfigs, hambient, fun s => ?_, Nat.le_of_eq (by rw [hsystems])⟩
  unfold system
  rw [hsystems]

theorem SamePlan.sameSettings {a b : Assembly α} (h : SamePlan a b) : SameSettings a b :=
  sameSettings_of_tables h.systems h.configs h.ambient

/-- Changing the lists of a system does not change what it holds. -/
theorem sameSettings_setSystem {a : Assembly α} {s : SystemId} {v : System} (hv : v.config = (a.system s).config) :
    SameSettings a (a.setSystem s v) := by
  refine ⟨rfl, rfl, fun t => ?_, Table.size_le_set ..⟩
  rw [system_setSystem]
  split
  case isTrue hst => rw [hv, hst]
  case isFalse => rfl

theorem sameSettings_enlist (a : Assembly α) (s : SystemId) (n : NodeId) : SameSettings a (a.enlist s n) := by
  unfold enlist
  dsimp only
  split
  · exact refl_of _ a
  · exact sameSettings_setSystem rfl

theorem sameSettings_enlistAll (a : Assembly α) (s : SystemId) (ns : List NodeId) :
    SameSettings a (a.enlistAll s ns) := by
  unfold enlistAll
  induction ns generalizing a with
  | nil => exact refl_of _ a
  | cons n rest ih => exact trans_of _ (sameSettings_enlist a s n) (ih _)

theorem sameSettings_indexId (a : Assembly α) (s : SystemId) (c : ConstraintId) : SameSettings a (a.indexId s c) := by
  unfold indexId
  split
  · exact refl_of _ a
  · dsimp only
    split
    · exact refl_of _ a
    · exact sameSettings_setSystem rfl

theorem sameSettings_join (a : Assembly α) (s : SystemId) (c : ConstraintId) : SameSettings a (a.join s c) := by
  have happend (b : Assembly α) : SameSettings b (b.append s c) := by
    have howner : SameSettings b (b.setConstraint c { b.constraint c with owner := some s }) :=
      sameSettings_of_tables rfl rfl rfl
    unfold append
    refine trans_of _ howner (sameSettings_setSystem ?_)
    rfl
  exact trans_of _ (trans_of _ (sameSettings_indexId a s c) (sameSettings_enlistAll _ s _)) (happend _)

end Assembly

open Assembly (SameSettings Relaxed Consistent)

namespace Act

theorem Keeps.sameSettings {β : Type} {p : Act α β} (h : Keeps Relaxed p) : Keeps SameSettings p := fun a =>
  (h a).mono fun _ _ hab => hab.toSamePlan.sameSettings

/-- Storing a target changes no configuration. -/
theorem sameSettings_store {r : Except (Fault α) (Option (Target α))} {c : ConstraintId}
    {k : Option (Target α) → Constraint α} :
    Keeps SameSettings (ofExcept r >>= fun target => change fun a => a.setConstraint c (k target)) :=
  (keeps_ofExcept r).bind fun _ => keeps_change fun _ => Assembly.sameSettings_of_tables rfl rfl rfl

/-! ### Making configurations and systems -/

variable {a : Assembly α}

theorem runs_newConfig {cfg : Config α} {Q : Except (Fault α) ConfigId → Assembly α → Prop}
    (h : Q (.ok a.configs.size) { a with configs := a.configs.push cfg }) : Runs (newConfig cfg) a Q :=
  runs_read (runs_after_change (runs_pure h))

theorem runs_copyAmbient {Q : Except (Fault α) ConfigId → Assembly α → Prop}
    (h : Q (.ok a.configs.size) { a with configs := a.configs.push a.ambient }) : Runs copyAmbient a Q :=
  runs_read (runs_newConfig h)

/-- A system that is given a configuration holds that object. -/
theorem runs_newSystem_given {k : ConfigId} {Q : Except (Fault α) SystemId → Assembly α → Prop}
    (h : Q (.ok a.systems.size) { a with systems := a.systems.push ⟨k, [], [], []⟩ }) :
    Runs (newSystem (some k)) a Q :=
  runs_bind (runs_pure (runs_read (runs_after_change (runs_pure h))))

/-- A system that is given none holds a new object, with the values of the ambient configuration. -/
theorem runs_newSystem_own {Q : Except (Fault α) SystemId → Assembly α → Prop}
    (h : Q (.ok a.systems.size) { a with
      configs := a.configs.push a.ambient
      systems := a.systems.push ⟨a.configs.size, [], [], []⟩ }) : Runs (newSystem none) a Q :=
  runs_bind (runs_copyAmbient (runs_read (runs_after_change (runs_pure h))))

/-! ### Making and registering constraints -/

variable [Scalar α]

theorem Makes.sameSettings {p : Act α ConstraintId} {ns : List NodeId} {length angle : Spec α}
    (h : Makes p a ns length angle) : Runs p a fun _ b => SameSettings a b := by
  refine Runs.mono h fun r b hrb => ?_
  rcases hrb with ⟨fault, -, rfl⟩ | ⟨k, -, -, rfl⟩
  · exact refl_of _ b
  · exact Assembly.sameSettings_of_tables rfl rfl rfl

theorem Makes.sameSettings_add {p : Act α ConstraintId} {s : SystemId} {ns : List NodeId}
    {length angle : Spec α} (h : Makes p a ns length angle) : Runs (p >>= Act.add s) a fun _ b => SameSettings a b := by
  refine h.add.mono fun r b hrb => ?_
  have hmade (k : Constraint α) : SameSettings a { a with constraints := a.constraints.push k } :=
    Assembly.sameSettings_of_tables rfl rfl rfl
  rcases hrb with ⟨fault, -, rfl⟩ | ⟨k, -, ⟨fault, -, rfl⟩ | ⟨-, -, rfl⟩⟩
  · exact refl_of _ b
  · exact hmade k
  · exact trans_of _ (hmade k) (Assembly.sameSettings_join ..)

end Act

variable [Scalar α]

namespace Assembly

theorem config_push (a : Assembly α) (cfg : Config α) (k : ConfigId) :
    ({ a with configs := a.configs.push cfg } : Assembly α).config k =
      if k = a.configs.size then cfg else a.config k := Table.get_push ..

theorem config_setConfig (a : Assembly α) (k l : ConfigId) (cfg : Config α) :
    (a.setConfig k cfg).config l = if k = l then cfg else a.config l := Table.get_set ..

omit [Scalar α] in
theorem system_push (a : Assembly α) (v : System) (s : SystemId) :
    ({ a with systems := a.systems.push v } : Assembly α).system s =
      if s = a.systems.size then v else a.system s := Table.get_push ..

end Assembly

/-! ### One operation -/

namespace Operation

/-- The ambient configuration that an operation leaves. -/
def ambientAfter (a : Assembly α) : Operation α → Config α
  | .setAmbient k => a.config k
  | _ => a.ambient

/-- What an operation does to configurations: it sets the ambient one, assigns fields of an object, makes a system hold
another object, makes objects or systems, or does nothing to them. -/
structure Settles (op : Operation α) (a b : Assembly α) : Prop where
  ambient : b.ambient = op.ambientAfter a
  config : ∀ k < a.configs.size, b.config k = op.assign k (a.config k)
  holds : ∀ s < a.systems.size, ¬op.Replaces s → (b.system s).config = (a.system s).config
  configs : a.configs.size ≤ b.configs.size
  systems : a.systems.size ≤ b.systems.size

theorem settles_of_sameSettings {op : Operation α} {β : Type} {p : Act α β} {a : Assembly α}
    (h : Act.Runs p a fun _ b => SameSettings a b) (hambient : op.ambientAfter a = a.ambient)
    (hassign : ∀ k cfg, op.assign k cfg = cfg) : Act.Runs p a fun _ b => op.Settles a b := by
  refine h.mono fun r b hab => ⟨hab.ambient.trans hambient.symm, fun k _ => ?_, fun s _ _ => hab.holds s,
    Nat.le_of_eq (congrArg Table.size hab.configs.symm), hab.systems⟩
  rw [hassign]
  unfold Assembly.config
  rw [hab.configs]

/-- Making a configuration changes none that there is. -/
theorem settles_push {op : Operation α} {a : Assembly α} (hambient : op.ambientAfter a = a.ambient)
    (hassign : ∀ k cfg, op.assign k cfg = cfg) (cfg : Config α) :
    op.Settles a { a with configs := a.configs.push cfg } := by
  refine ⟨hambient.symm, fun k hk => ?_, fun _ _ _ => rfl, ?_, Nat.le_refl _⟩
  · rw [hassign, Assembly.config_push, if_neg (Nat.ne_of_lt hk)]
  · rw [Table.size_push]
    exact Nat.le_succ _

/-- Nor does making a system, which holds one of its own or one that it was given. -/
theorem Settles.pushSystem {op : Operation α} {a b : Assembly α} (h : op.Settles a b) (v : System) :
    op.Settles a { b with systems := b.systems.push v } := by
  refine ⟨h.ambient, h.config, fun s hs hop => ?_, h.configs, ?_⟩
  · rw [Assembly.system_push, if_neg (Nat.ne_of_lt (Nat.lt_of_lt_of_le hs h.systems))]
    exact h.holds s hs hop
  · rw [Table.size_push]
    exact Nat.le_succ_of_le h.systems

theorem runs_settles (op : Operation α) (a : Assembly α) : Act.Runs op.act.2 a fun _ b => op.Settles a b := by
  have htables {b : Assembly α} (hsystems : b.systems = a.systems) (hconfigs : b.configs = a.configs)
      (hambient : b.ambient = a.ambient) : SameSettings a b := Assembly.sameSettings_of_tables hsystems hconfigs hambient
  have hrelaxed {β : Type} {p : Act α β} (h : Act.Keeps Relaxed p) : Act.Runs p a fun _ b => SameSettings a b :=
    h.sameSettings a
  have hchange (g : Assembly α → Assembly α) (h : SameSettings a (g a)) :
      Act.Runs (Act.change g) a fun _ b => SameSettings a b := Act.runs_change h
  have hsettles (g : Assembly α → Assembly α) (h : op.Settles a (g a)) :
      Act.Runs (Act.change g) a fun _ b => op.Settles a b := Act.runs_change h
  -- most operations settle nothing, so that it is enough to see that they leave the settings alone
  have hplain {β : Type} {p : Act α β} (h : Act.Runs p a fun _ b => SameSettings a b)
      (hambient : op.ambientAfter a = a.ambient) (hassign : ∀ k cfg, op.assign k cfg = cfg) :
      Act.Runs p a fun _ b => op.Settles a b := settles_of_sameSettings h hambient hassign
  cases op with
  | newNode x y o => exact hplain (Act.runs_newNode (htables rfl rfl rfl)) rfl fun _ _ => rfl
  | modifyNode n f =>
    exact hplain (hchange (fun a => a.setNode n (f (a.node n))) (htables rfl rfl rfl)) rfl fun _ _ => rfl
  | addNode s n => exact hplain (Act.runs_addNode (Assembly.sameSettings_enlist a s n)) rfl fun _ _ => rfl
  | node s x y o =>
    have hmade : SameSettings a { a with nodes := a.nodes.push (o.node x y) } := htables rfl rfl rfl
    exact hplain (Act.runs_node (trans_of _ hmade (Assembly.sameSettings_enlist ..))) rfl fun _ _ => rfl
  | newPair first second o => exact hplain (Act.makes_newPair a first second o).sameSettings rfl fun _ _ => rfl
  | newTriple apex ray arm o => exact hplain (Act.makes_newTriple a apex ray arm o).sameSettings rfl fun _ _ => rfl
  | add s c =>
    exact hplain (Act.runs_add (fun _ _ => refl_of _ a) fun _ => Assembly.sameSettings_join a s c) rfl fun _ _ => rfl
  | pair s first second o =>
    exact hplain (Act.runs_pair (fun _ _ _ => refl_of _ a) (Act.makes_newPair a first second o).sameSettings_add) rfl fun _ _ => rfl
  | triple s apex ray arm o =>
    exact hplain (Act.runs_triple (fun _ _ _ => refl_of _ a) (Act.makes_newTriple a apex ray arm o).sameSettings_add) rfl
      fun _ _ => rfl
  | setLengthTarget c spec =>
    refine hplain (Act.runs_read ?_) rfl fun _ _ => rfl
    dsimp only
    split
    · exact Act.runs_throw (refl_of _ a)
    · exact Act.sameSettings_store a
  | setAngleTarget c spec => exact hplain (Act.runs_read (Act.sameSettings_store a)) rfl fun _ _ => rfl
  | make recipe =>
    refine hplain ((Act.runs_make recipe a).mono fun r b h => ?_) rfl fun _ _ => rfl
    obtain ⟨k, -, hk⟩ := h
    rw [hk.after]
    exact htables rfl rfl rfl
  | evaluate c t =>
    exact hplain ((Act.runs_evaluate a c t).mono fun _ _ h => h.1.toSameDesign.samePlan.sameSettings) rfl fun _ _ => rfl
  | targetLength c => exact hplain (hrelaxed (Act.relaxed_targetLength c)) rfl fun _ _ => rfl
  | targetAngle c => exact hplain (hrelaxed (Act.relaxed_targetAngle c)) rfl fun _ _ => rfl
  | resolve c ref => exact hplain (Act.runs_resolve (htables rfl rfl rfl)) rfl fun _ _ => rfl
  | byId? s id => exact hplain (Act.runs_byId? (htables rfl rfl rfl)) rfl fun _ _ => rfl
  | correctOne c => exact hplain (hrelaxed (Act.relaxed_correctOne c)) rfl fun _ _ => rfl
  | residualsOf c => exact hplain (hrelaxed (Act.relaxed_residualsOf c)) rfl fun _ _ => rfl
  | describe c => exact hplain (hrelaxed (Act.relaxed_describe c)) rfl fun _ _ => rfl
  | prepare first c =>
    exact hplain (hchange (·.prepare first c) (Assembly.relaxed_prepare first a c).toSamePlan.sameSettings) rfl
      fun _ _ => rfl
  | restore c =>
    exact hplain (hchange (·.restore c) (Assembly.relaxed_restore a c).toSamePlan.sameSettings) rfl fun _ _ => rfl
  | correct s => exact hplain (hrelaxed (Act.relaxed_correct s)) rfl fun _ _ => rfl
  | residuals s => exact hplain (hrelaxed (Act.relaxed_residuals s)) rfl fun _ _ => rfl
  | solve s limit => exact hplain (hrelaxed (Act.relaxed_solve s limit)) rfl fun _ _ => rfl
  | solveAnnounced s => exact hplain (hrelaxed (Act.relaxed_solveAnnounced s)) rfl fun _ _ => rfl
  | log s level => exact hplain (hrelaxed (Act.relaxed_log s level)) rfl fun _ _ => rfl
  | newConfig cfg => exact Act.runs_newConfig (settles_push rfl (fun _ _ => rfl) cfg)
  | copyAmbient => exact Act.runs_copyAmbient (settles_push rfl (fun _ _ => rfl) a.ambient)
  | setAmbient k =>
    exact hsettles (fun a => { a with ambient := a.config k })
      ⟨rfl, fun _ _ => rfl, fun _ _ _ => rfl, Nat.le_refl _, Nat.le_refl _⟩
  | modifyConfig k f =>
    refine hsettles (fun a => a.setConfig k (f (a.config k)))
      ⟨rfl, fun l _ => ?_, fun _ _ _ => rfl, Table.size_le_set .., Nat.le_refl _⟩
    have hassign : (modifyConfig k f).assign l (a.config l) = if k = l then f (a.config l) else a.config l := rfl
    rw [Assembly.config_setConfig, hassign]
    by_cases hkl : k = l
    · rw [hkl]
    · rw [if_neg hkl, if_neg hkl]
  | newSystem config =>
    cases config with
    | some k =>
      refine Act.runs_newSystem_given (Settles.pushSystem ?_ ⟨k, [], [], []⟩)
      exact ⟨rfl, fun _ _ => rfl, fun _ _ _ => rfl, Nat.le_refl _, Nat.le_refl _⟩
    | none => exact Act.runs_newSystem_own ((settles_push rfl (fun _ _ => rfl) a.ambient).pushSystem _)
  | useConfig s k =>
    refine hsettles (fun a => a.setSystem s { a.system s with config := k })
      ⟨rfl, fun _ _ => rfl, fun t _ hst => ?_, Nat.le_refl _, Table.size_le_set ..⟩
    have hne : ¬s = t := hst
    rw [Assembly.system_setSystem, if_neg hne]

/-- What an operation does to the configurations of a session. -/
theorem settles (op : Operation α) (st : Session α) : op.Settles st.assembly (op.after st).assembly :=
  (op.runs_settles st.assembly).at_session

end Operation

/-! ### Whole runs -/

theorem ambient_run {ops : List (Operation α)} (h : ∀ op ∈ ops, ¬op.SetsAmbient) (st : Session α) :
    (run ops st).assembly.ambient = st.assembly.ambient := by
  induction ops generalizing st with
  | nil => rfl
  | cons op rest ih =>
    obtain ⟨hop, hrest⟩ := List.forall_mem_cons.mp h
    have hkept : op.ambientAfter st.assembly = st.assembly.ambient := by
      cases op with
      | setAmbient k => exact absurd trivial hop
      | _ => rfl
    exact (ih hrest (op.after st)).trans ((op.settles st).ambient.trans hkept)

/-- An object has the values that the assignments of the run leave in it. -/
theorem config_run {k : ConfigId} {st : Session α} (hk : k < st.assembly.configs.size) (ops : List (Operation α)) :
    (run ops st).assembly.config k = assigned k ops (st.assembly.config k) := by
  induction ops generalizing st with
  | nil => rfl
  | cons op rest ih =>
    have hstep := (op.settles st).config k hk
    have hrest := ih (Nat.lt_of_lt_of_le hk (op.settles st).configs)
    rw [hstep] at hrest
    exact hrest

/-- A system goes on to hold what it holds until it is given something else. -/
theorem holds_run {s : SystemId} {ops : List (Operation α)} (h : ∀ op ∈ ops, ¬op.Replaces s) {st : Session α}
    (hs : s < st.assembly.systems.size) :
    ((run ops st).assembly.system s).config = (st.assembly.system s).config := by
  induction ops generalizing st with
  | nil => rfl
  | cons op rest ih =>
    obtain ⟨hop, hrest⟩ := List.forall_mem_cons.mp h
    have hstep := (op.settles st).holds s hs hop
    exact (ih hrest (Nat.lt_of_lt_of_le hs (op.settles st).systems)).trans hstep

/-- A new object has the values that it was made with, and what the rest of the run assigns to it. -/
theorem config_run_new {op : Operation α} {st : Session α} {cfg : Config α}
    (h : (op.after st).assembly.configs = st.assembly.configs.push cfg) (later : List (Operation α)) :
    (run (op :: later) st).assembly.config st.assembly.configs.size =
      assigned st.assembly.configs.size later cfg := by
  have hk : st.assembly.configs.size < (op.after st).assembly.configs.size := by
    rw [h, Table.size_push]
    exact Nat.lt_succ_self _
  have hmade : (op.after st).assembly.config st.assembly.configs.size = cfg := by
    unfold Assembly.config
    rw [h, Table.get_push, if_pos rfl]
  have hrun := config_run hk later
  rw [hmade] at hrun
  exact hrun

/-- A new system goes on to hold what it was made with, until it is given something else. -/
theorem holds_run_new {op : Operation α} {st : Session α} {v : System}
    (h : (op.after st).assembly.systems = st.assembly.systems.push v) {later : List (Operation α)}
    (hkept : ∀ op ∈ later, ¬op.Replaces st.assembly.systems.size) :
    ((run (op :: later) st).assembly.system st.assembly.systems.size).config = v.config := by
  have hs : st.assembly.systems.size < (op.after st).assembly.systems.size := by
    rw [h, Table.size_push]
    exact Nat.lt_succ_self _
  have hmade : (op.after st).assembly.system st.assembly.systems.size = v := by
    unfold Assembly.system
    rw [h, Table.get_push, if_pos rfl]
  have hrun := holds_run hkept hs
  rw [hmade] at hrun
  exact hrun

/-- The values that a system works with. -/
def Assembly.settings (a : Assembly α) (s : SystemId) : Config α := a.config (a.system s).config

/-- Two systems with one object work with the same values. -/
theorem settings_run {s : SystemId} {k : ConfigId} {ops : List (Operation α)} (h : ∀ op ∈ ops, ¬op.Replaces s)
    {st : Session α} (hs : s < st.assembly.systems.size) (hk : k < st.assembly.configs.size)
    (hheld : (st.assembly.system s).config = k) :
    (run ops st).assembly.settings s = assigned k ops (st.assembly.config k) := by
  unfold Assembly.settings
  rw [holds_run h hs, hheld]
  exact config_run hk ops

/-- The laws of the configurations of a session, whatever is done in it `later`. -/
structure SharingLaws (st : Session α) : Prop where
  /-- The ambient configuration stays what it is unless it is set, -/
  ambient_kept : ∀ later : List (Operation α), (∀ op ∈ later, ¬op.SetsAmbient) →
    (run later st).assembly.ambient = st.assembly.ambient
  /-- and then it has the values that the object had at that moment, whatever becomes of the object. -/
  ambient_set : ∀ (k : ConfigId) (later : List (Operation α)), (∀ op ∈ later, ¬op.SetsAmbient) →
    (run (.setAmbient k :: later) st).assembly.ambient = st.assembly.config k
  /-- A new object has the values given and what is assigned to it later. -/
  made : ∀ cfg : Config α, ∃ k, (Act.newConfig cfg).answer st = .ok k ∧ st.assembly.configs.size ≤ k ∧
    ∀ later : List (Operation α), (run (.newConfig cfg :: later) st).assembly.config k = assigned k later cfg
  /-- A copy of the ambient configuration is a new object with its values. -/
  copied : ∃ k, Act.copyAmbient.answer st = .ok k ∧ st.assembly.configs.size ≤ k ∧
    ∀ later : List (Operation α),
      (run (.copyAmbient :: later) st).assembly.config k = assigned k later st.assembly.ambient
  /-- A system that is given no configuration goes on to hold a new object, until it is given another, and works with the
  values that the ambient configuration had when it was made, until they are assigned to. -/
  own : ∃ s k, (Act.newSystem none).answer st = .ok s ∧ st.assembly.configs.size ≤ k ∧
    ∀ later : List (Operation α), (∀ op ∈ later, ¬op.Replaces s) →
      ((run (.newSystem none :: later) st).assembly.system s).config = k ∧
      ((∀ op ∈ later, ¬op.Assigns k) →
        (run (.newSystem none :: later) st).assembly.settings s = st.assembly.ambient)
  /-- A system that is given a configuration holds that very object, until it is given another, -/
  given : ∀ k, ∃ s, (Act.newSystem (some k)).answer st = .ok s ∧
    ∀ later : List (Operation α), (∀ op ∈ later, ¬op.Replaces s) →
      ((run (.newSystem (some k) :: later) st).assembly.system s).config = k
  /-- and so does one that is given it later. -/
  used : ∀ s < st.assembly.systems.size, ∀ (k : ConfigId) (later : List (Operation α)),
    (∀ op ∈ later, ¬op.Replaces s) → ((run (.useConfig s k :: later) st).assembly.system s).config = k
  /-- Everybody who holds an object sees everything that is assigned to it. -/
  shared : ∀ s < st.assembly.systems.size, ∀ k < st.assembly.configs.size, (st.assembly.system s).config = k →
    ∀ later : List (Operation α), (∀ op ∈ later, ¬op.Replaces s) →
      (run later st).assembly.settings s = assigned k later (st.assembly.config k)
  /-- A constraint works with the values of its system, -/
  registered : ∀ s, ∀ c ∈ (st.assembly.system s).constraints, st.assembly.configOf c = st.assembly.settings s
  /-- and one that no system has registered with the ambient configuration. -/
  unregistered : ∀ c, (∀ s, c ∉ (st.assembly.system s).constraints) → st.assembly.configOf c = st.assembly.ambient

/-- The laws hold wherever the registry is consistent, as that says which constraints are without a system. -/
theorem sharingLaws_of_consistent {st : Session α} (h : Consistent st.assembly) : SharingLaws st where
  ambient_kept later hlater := ambient_run hlater st
  ambient_set k later hlater := ambient_run hlater (Operation.after (.setAmbient k) st)
  made cfg := by
    have hmade : (Act.newConfig cfg).answer st = .ok st.assembly.configs.size ∧
        (Operation.after (.newConfig cfg) st).assembly.configs = st.assembly.configs.push cfg :=
      (Act.runs_newConfig (Q := fun r b => r = .ok _ ∧ b.configs = _) ⟨rfl, rfl⟩).at_session
    exact ⟨_, hmade.1, Nat.le_refl _, config_run_new hmade.2⟩
  copied := by
    have hmade : Act.copyAmbient.answer st = .ok st.assembly.configs.size ∧
        (Operation.after .copyAmbient st).assembly.configs = st.assembly.configs.push st.assembly.ambient :=
      (Act.runs_copyAmbient (Q := fun r b => r = .ok _ ∧ b.configs = _) ⟨rfl, rfl⟩).at_session
    exact ⟨_, hmade.1, Nat.le_refl _, config_run_new hmade.2⟩
  own := by
    obtain ⟨hanswer, hconfigs, hsystems⟩ : (Act.newSystem none).answer st = .ok st.assembly.systems.size ∧
        (Operation.after (.newSystem none) st).assembly.configs = st.assembly.configs.push st.assembly.ambient ∧
        (Operation.after (.newSystem none) st).assembly.systems =
          st.assembly.systems.push ⟨st.assembly.configs.size, [], [], []⟩ :=
      (Act.runs_newSystem_own (Q := fun r b => r = .ok _ ∧ b.configs = _ ∧ b.systems = _) ⟨rfl, rfl, rfl⟩).at_session
    refine ⟨_, _, hanswer, Nat.le_refl _, fun later hlater => ?_⟩
    have hheld := holds_run_new hsystems hlater
    refine ⟨hheld, fun hassigns => ?_⟩
    unfold Assembly.settings
    rw [hheld]
    exact (config_run_new hconfigs later).trans (assigned_eq_self hassigns _)
  given k := by
    obtain ⟨hanswer, hsystems⟩ : (Act.newSystem (some k)).answer st = .ok st.assembly.systems.size ∧
        (Operation.after (.newSystem (some k)) st).assembly.systems = st.assembly.systems.push ⟨k, [], [], []⟩ :=
      (Act.runs_newSystem_given (Q := fun r b => r = .ok _ ∧ b.systems = _) ⟨rfl, rfl⟩).at_session
    exact ⟨_, hanswer, fun later hlater => holds_run_new hsystems hlater⟩
  used s hs k later hlater := by
    have hsize := (Operation.settles (.useConfig s k) st).systems
    have hheld : ((Operation.after (.useConfig s k) st).assembly.system s).config = k := by
      have hset : (st.assembly.setSystem s { st.assembly.system s with config := k }).system s =
          { st.assembly.system s with config := k } := (Assembly.system_setSystem ..).trans (if_pos rfl)
      exact congrArg System.config hset
    exact (holds_run hlater (Nat.lt_of_lt_of_le hs hsize)).trans hheld
  shared s hs k hk hheld later hlater := settings_run hlater hs hk hheld
  registered s c hc := h.configOf hc
  unregistered c hc := by
    unfold Assembly.configOf
    -- a constraint that no system lists has no owner, and then the ambient configuration counts
    cases howner : (st.assembly.constraint c).owner with
    | none => rfl
    | some s => exact absurd ((h.owner_iff s c).mpr howner) (hc s)

/-- After any run, whatever is done next, configurations are seen by those who hold them and by nobody else. -/
theorem run_sharingLaws (ambient : Config α) (journal : Journal α) (ops : List (Operation α)) :
    SharingLaws (run ops ⟨.empty ambient, journal⟩) :=
  sharingLaws_of_consistent (consistent_run (Assembly.consistent_empty ambient) ops)

end Linkage
