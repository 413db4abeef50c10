import Linkage.Proofs.Comparison
import Linkage.Proofs.Rollback

/-!
# Linkage.Proofs.SideBySide — two whole runs, sweep by sweep

`Concur F T p q a b` is agreement for runs that are compared only as long as they go well: both end with values that `T`
relates, together with the assemblies they leave, or both fail with faults that `F` relates.  If sweeps of two systems
concur, so do their loops (`concur_sweepsFrom`) and, up to what is put back after a failure, their relaxations
(`concur_correct`).  `SameConstraints` is what two states of one system share whatever the order of its constraints, also
if one of them has more, and it gives each constraint the same task in both (`SameConstraints.sameTask`).
-/

namespace Linkage

variable {α : Type}

/-- Both are values that `T` relates, with the assemblies left, or both are faults that `F` relates. -/
inductive Concurs {β γ : Type} (F : Fault α → Fault α → Prop) (T : β → γ → Assembly α → Assembly α → Prop)
    (a b : Assembly α) : Except (Fault α) β → Except (Fault α) γ → Prop where
  | ok {x : β} {y : γ} (h : T x y a b) : Concurs F T a b (.ok x) (.ok y)
  | error {e e' : Fault α} (h : F e e') : Concurs F T a b (.error e) (.error e')

namespace Concurs

variable {β : Type} {F : Fault α → Fault α → Prop} {T : β → Assembly α → Assembly α → Prop} {a b : Assembly α}

/-- Where a value comes with the same value only, so does this one. -/
theorem answer_ok {r r' : Except (Fault α) β} (h : Concurs F (fun x y a b => y = x ∧ T x a b) a b r r') {x : β}
    (hr : r = .ok x) : r' = .ok x := by
  subst hr
  cases h with
  | ok h => rw [h.1]

/-- If a fault, too, comes with the same fault only, the answers are the same. -/
theorem answer_eq {r r' : Except (Fault α) β} (h : Concurs Eq (fun x y a b => y = x ∧ T x a b) a b r r') : r' = r := by
  cases h with
  | ok h => rw [h.1]
  | error he => rw [he]

variable {R : Assembly α → Assembly α → Prop} {r r' : Except (Fault α) Nat}

/-- Counts of sweeps that concur: both runs are rolled back, or they leave what a run that counts leaves. -/
theorem rolled_back_or (h : Concurs F (fun k k' a b => k' = k ∧ (1 ≤ k → R a b)) a b r r') :
    ((r = .ok 0 ∨ ∃ fault, r = .error fault) ∧ (r' = .ok 0 ∨ ∃ fault, r' = .error fault)) ∨ R a b := by
  cases h with
  | error he => exact Or.inl ⟨Or.inr ⟨_, rfl⟩, Or.inr ⟨_, rfl⟩⟩
  | @ok k k' h =>
    obtain ⟨rfl, hmet⟩ := h
    by_cases hzero : k' = 0
    · subst hzero
      exact Or.inl ⟨Or.inl rfl, Or.inl rfl⟩
    · exact Or.inr (hmet (Nat.one_le_iff_ne_zero.mpr hzero))

theorem of_met (h : Concurs F (fun k k' a b => k' = k ∧ (1 ≤ k → R a b)) a b r r') {k : Nat} (hk : 1 ≤ k)
    (hr : r = .ok k) : R a b := by
  subst hr
  cases h with
  | ok h => exact h.2 hk

end Concurs

namespace Act

variable {β γ δ ε : Type}

/-- On `a` and on `b`, `p` and `q` both end well, with `T`-related ends, or both fail, with `F`-related faults. -/
def Concur (F : Fault α → Fault α → Prop) (T : β → γ → Assembly α → Assembly α → Prop) (p : Act α β) (q : Act α γ)
    (a b : Assembly α) : Prop := Runs p a fun r a' => Runs q b fun r' b' => Concurs F T a' b' r r'

section Rules

variable {F : Fault α → Fault α → Prop} {T : β → γ → Assembly α → Assembly α → Prop}
  {U : δ → ε → Assembly α → Assembly α → Prop} {p : Act α β} {q : Act α γ} {a b : Assembly α}

theorem concur_pure {x : β} {y : γ} (h : T x y a b) : Concur F T (pure x) (pure y) a b := runs_pure (runs_pure (.ok h))

theorem Concur.mono {T' : β → γ → Assembly α → Assembly α → Prop} (h : Concur F T p q a b)
    (hT : ∀ x y a' b', T x y a' b' → T' x y a' b') : Concur F T' p q a b := by
  refine Runs.mono h fun r a' hq => hq.mono fun r' b' hend => ?_
  cases hend with
  | ok h => exact .ok (hT _ _ _ _ h)
  | error h => exact .error h

/-- Actions that agree concur. -/
theorem concur_of_agree {S : β → γ → Prop} {R : Assembly α → Assembly α → Prop} (hF : ∀ e, F e e)
    (h : Agree S R p q a b) : Concur F (fun x y a' b' => S x y ∧ R a' b') p q a b := by
  refine Runs.mono h fun r a' hq => hq.mono fun r' b' ⟨hmatch, hab⟩ => ?_
  cases r with
  | ok x =>
    cases r' with
    | ok y => exact .ok ⟨hmatch, hab⟩
    | error e' => exact hmatch.elim
  | error e =>
    cases r' with
    | ok y => exact hmatch.elim
    | error e' =>
      obtain rfl : e = e' := hmatch
      exact .error (hF e)

theorem concur_change {f g : Assembly α → Assembly α} {T : Unit → Unit → Assembly α → Assembly α → Prop}
    (h : T () () (f a) (g b)) : Concur F T (change f) (change g) a b := runs_change (runs_change (.ok h))

theorem concur_read {f : Assembly α → Act α β} {g : Assembly α → Act α γ} (h : Concur F T (f a) (g b) a b) :
    Concur F T (assembly >>= f) (assembly >>= g) a b := runs_read (Runs.mono h fun _ _ h' => runs_read h')

theorem concur_after_report {channel channel' : Channel} {level level' : Level} {message message' : Message α}
    {f : Unit → Act α β} {g : Unit → Act α γ} (h : Concur F T (f ()) (g ()) a b) :
    Concur F T (report channel level message >>= f) (report channel' level' message' >>= g) a b :=
  runs_after_report (Runs.mono h fun _ _ h' => runs_after_report h')

theorem concur_traced [Scalar α] {channel : Channel} {operation : String} {call : Assembly α → Call α}
    {result : Assembly α → β → Option (Value α)} {result' : Assembly α → γ → Option (Value α)}
    (h : Concur F T p q a b) (hwritable : Writable call result := by exact ⟨fun _ _ => rfl, fun _ _ _ => rfl⟩)
    (hwritable' : Writable call result' := by exact ⟨fun _ _ => rfl, fun _ _ _ => rfl⟩) :
    Concur F T (traced channel operation call result p) (traced channel operation call result' q) a b :=
  runs_traced (Runs.mono h fun _ _ h' => runs_traced h' hwritable') hwritable

/-- Sequences concur if their beginnings do, and their ends on whatever these leave when they go well. -/
theorem concur_bind {f : β → Act α δ} {g : γ → Act α ε} (h : Concur F T p q a b)
    (hf : ∀ x y a' b', T x y a' b' → Concur F U (f x) (g y) a' b') : Concur F U (p >>= f) (q >>= g) a b := by
  refine runs_bind (Runs.mono h fun r a' hq => ?_)
  cases r with
  | error e =>
    rw [then_error]
    refine runs_bind (hq.mono fun r' b' hend => ?_)
    cases hend with
    | error h => exact .error h
  | ok x =>
    rw [then_ok]
    intro j
    refine runs_bind (hq.mono fun r' b' hend => ?_)
    cases hend with
    | ok h => exact hf _ _ _ _ h j

/-- What follows an action that may fail goes on in both from values, or in both from faults. -/
theorem concur_outcome {G : Fault α → Fault α → Prop} {f : Except (Fault α) β → Act α δ}
    {g : Except (Fault α) γ → Act α ε} (h : Concur F T p q a b)
    (hok : ∀ x y a' b', T x y a' b' → Concur G U (f (.ok x)) (g (.ok y)) a' b')
    (herror : ∀ e e' a' b', F e e' → Concur G U (f (.error e)) (g (.error e')) a' b') :
    Concur G U (outcome p >>= f) (outcome q >>= g) a b := by
  refine runs_bind (runs_outcome (Runs.mono h fun r a' hq => ?_))
  rw [then_ok]
  intro j
  refine runs_bind (runs_outcome (hq.mono fun r' b' hend => ?_))
  rw [then_ok]
  cases hend with
  | ok h => exact hok _ _ _ _ h j
  | error h => exact herror _ _ _ _ h j

/-- Actions that concur also lead to what each keeps to. -/
theorem Concur.framed {R R' : Assembly α → Assembly α → Prop} (h : Concur F T p q a b) (hp : Keeps R p)
    (hq : Keeps R' q) : Concur F (fun x y a' b' => T x y a' b' ∧ R a a' ∧ R' b b') p q a b := by
  refine (Runs.and h (hp a)).mono fun r a' ⟨hend, ha⟩ => (hend.and (hq b)).mono fun r' b' ⟨hend, hb⟩ => ?_
  cases hend with
  | ok h => exact .ok ⟨h, ha, hb⟩
  | error h => exact .error h

/-- What concurs on the assemblies of two sessions concurs in the sessions. -/
theorem Concur.at_sessions {st st' : Session α} (h : Concur F T p q st.assembly st'.assembly) :
    Concurs F T (p.after st).assembly (q.after st').assembly (p.answer st) (q.answer st') :=
  h.at_session.at_session

end Rules

/-! ### The loop and the run -/

section Loop

variable [Scalar α] {F : Fault α → Fault α → Prop} {R R' : Assembly α → Assembly α → Prop} {s s' : SystemId}
  {constraints constraints' : List ConstraintId}

/-- If sweeps from `R`-related assemblies answer the same and leave `R'`-related ones, which is more, so do loops that
meet every constraint. -/
theorem concur_sweepsFrom
    (hsweep : ∀ first a b, R a b → Concur F (fun met met' a' b' => met' = met ∧ R' a' b')
      (sweep first constraints) (sweep first constraints') a b)
    (hagain : ∀ a b, R' a b → R a b) (hfinite : ∀ a b, R' a b → b.isFinite s' = a.isFinite s) (left done : Nat)
    {a b : Assembly α} (h : R a b) :
    Concur F (fun verdict verdict' a' b' => verdict' = verdict ∧ ∀ k, verdict = .met k → R' a' b')
      (sweepsFrom s constraints left done) (sweepsFrom s' constraints' left done) a b := by
  induction left generalizing done a b with
  | zero => exact concur_pure ⟨rfl, fun k hk => nomatch hk⟩
  | succ left ih =>
    refine concur_bind (hsweep (done == 0) a b h) fun met met' a' b' ⟨hmet, h'⟩ => ?_
    subst hmet
    refine concur_read ?_
    rw [hfinite a' b' h']
    split
    · exact concur_after_report (concur_pure ⟨rfl, fun k hk => nomatch hk⟩)
    · split
      · exact concur_pure ⟨rfl, fun _ _ => h'⟩
      · exact ih (done + 1) (hagain a' b' h')

/-- If two loops concur, so do the runs around them, up to what is put back after a run that meets nothing. -/
theorem concur_correct {a b : Assembly α}
    (hloop : Concur F (fun verdict verdict' a' b' => verdict' = verdict ∧ ∀ k, verdict = .met k → R' a' b')
      (sweepsFrom s (a.system s).constraints (a.config (a.system s).config).cap 0)
      (sweepsFrom s' (b.system s').constraints (b.config (b.system s').config).cap 0) a b) :
    Concur F (fun k k' a' b' => k' = k ∧ (1 ≤ k → R' a' b')) (correct s) (correct s') a b := by
  refine concur_traced (concur_read (concur_outcome hloop ?_ fun e e' a' b' he => ?_))
  · intro verdict verdict' a' b' ⟨hverdict, h⟩
    subst hverdict
    cases verdict' with
    | unmet done =>
      refine runs_after_rollback (runs_after_report (runs_pure ?_))
      refine runs_after_rollback (runs_after_report (runs_pure (.ok ⟨rfl, fun hk => ?_⟩)))
      omega
    | met done => exact concur_after_report (concur_pure ⟨rfl, fun _ => h done rfl⟩)
  · exact runs_after_rollback (runs_throw (runs_after_rollback (runs_throw (.error he))))

end Loop

end Act

/-! ### One system in two states -/

namespace Assembly

/-- What a constraint of a system refers to is a constraint of the system. -/
theorem Consistent.mem_of_lookUp {a : Assembly α} (h : Consistent a) {s : SystemId} {c d : ConstraintId}
    (hc : c ∈ (a.system s).constraints) {r : Reference} (hd : a.lookUp c r = .ok d) : d ∈ (a.system s).constraints := by
  obtain ⟨t, howner, hid, -⟩ := lookUp_ok_iff.mp hd
  have hs : s = t := Option.some.inj (((h.owner_iff s c).mp hc).symm.trans howner)
  rw [hs]
  exact ((h.byId?_iff t r.ref d).mp hid).1

variable [Scalar α] {s : SystemId} {a b : Assembly α}

/-- The system `s` has the constraints in `b` that it has in `a`, in whatever order, with the same data up to the states
that they saved, and the same configuration.  What else it has in `b` has no identifier. -/
structure SameConstraints (s : SystemId) (a b : Assembly α) : Prop where
  mem : ∀ c ∈ (a.system s).constraints, c ∈ (b.system s).constraints
  named : ∀ c ∈ (b.system s).constraints, (b.constraint c).id ≠ none → c ∈ (a.system s).constraints
  constraint : ∀ c ∈ (a.system s).constraints, b.constraint c = { a.constraint c with saved := (b.constraint c).saved }
  config : b.config (b.system s).config = a.config (a.system s).config

namespace SameConstraints

theorem id (h : SameConstraints s a b) {c : ConstraintId} (hc : c ∈ (a.system s).constraints) :
    (b.constraint c).id = (a.constraint c).id := by rw [h.constraint c hc]

/-- Consistent registries find the same constraints under the same identifiers. -/
theorem byId? (h : SameConstraints s a b) (ha : Consistent a) (hb : Consistent b) (id : String) :
    b.byId? s id = a.byId? s id := by
  refine Option.ext fun c => ?_
  rw [hb.byId?_iff, ha.byId?_iff]
  constructor
  · rintro ⟨hc, hid⟩
    have hmem := h.named c hc (by rw [hid]; exact Option.some_ne_none id)
    exact ⟨hmem, (h.id hmem).symm.trans hid⟩
  · rintro ⟨hc, hid⟩
    exact ⟨h.mem c hc, (h.id hc).trans hid⟩

variable {c : ConstraintId} (h : SameConstraints s a b) (ha : Consistent a) (hc : c ∈ (a.system s).constraints)
include h ha hc

theorem lookUp (hb : Consistent b) (r : Reference) : b.lookUp c r = a.lookUp c r := by
  have howner : (a.constraint c).owner = some s := (ha.owner_iff s c).mp hc
  have howner' : (b.constraint c).owner = some s := by rw [h.constraint c hc, howner]
  have hid : (b.constraint c).id = (a.constraint c).id := by rw [h.constraint c hc]
  unfold Assembly.lookUp Assembly.resolved
  rw [howner, howner', hid]
  dsimp only
  rw [h.byId? ha hb]
  cases hfound : a.byId? s r.ref with
  | none => rfl
  | some d =>
    have hd : d ∈ (a.system s).constraints := ((ha.byId?_iff s r.ref d).mp hfound).1
    have hshape : (b.constraint d).shape = (a.constraint d).shape := by rw [h.constraint d hd]
    simp only [bind, Except.bind, hshape]

/-- A constraint has the same task in both, if it sees its own nodes and those of the constraints it refers to, and its
callables no more than that. -/
theorem sameTask (hb : Consistent b) {w : Comparison α} (hnodes : ∀ n ∈ (a.constraint c).shape.nodes, w.seen n)
    (hfound : ∀ t ∈ (a.constraint c).targets, ∀ r ∈ t.references, ∀ d, a.lookUp c r = .ok d →
      ∀ n ∈ (a.constraint d).shape.nodes, w.seen n)
    (hcallables : ∀ t ∈ (a.constraint c).targets, t.Respects w) : SameTask w c a b where
  constraint := h.constraint c hc
  configOf := by rw [hb.configOf (h.mem c hc), ha.configOf hc, h.config]
  nodes := hnodes
  lookUp t ht r hr := h.lookUp ha hc hb r
  found t ht r hr d hd := by
    refine ⟨?_, hfound t ht r hr d hd⟩
    rw [h.constraint d (ha.mem_of_lookUp hc hd)]
  callables := hcallables

end SameConstraints

/-! ### Preparing both -/

namespace Abreast

variable {w : Comparison α} {constraints : List ConstraintId} {a' b' : Assembly α}

theorem alike (h : Abreast w constraints a b) (ha : Alike a a') (hb : Alike b b') : Abreast w constraints a' b' := by
  refine h.relaxed ha.relaxed hb.relaxed (fun n hn => ?_) (fun n hn => ?_) ?_
  · rw [ha.node, hb.node]
    exact h.node n hn
  · rw [ha.node, hb.node]
    exact h.rest n hn
  · rw [ha.readings, hb.readings]
    exact h.readings

theorem readings_clearBoosts (a : Assembly α) (nodes : List NodeId) : (a.clearBoosts nodes).readings = a.readings := by
  unfold clearBoosts
  induction nodes generalizing a with
  | nil => rfl
  | cons n rest ih => exact ih _

/-- Clearing the boosts of the same nodes, if they are seen, leaves both abreast. -/
theorem clearBoosts (h : Abreast w constraints a b) {nodes nodes' : List NodeId}
    (hnodes : ∀ n, n ∈ nodes' ↔ n ∈ nodes) (hseen : ∀ n ∈ nodes, w.seen n) :
    Abreast w constraints (a.clearBoosts nodes) (b.clearBoosts nodes') := by
  have hclear (c : Assembly α) (nodes : List NodeId) : Relaxed c (c.clearBoosts nodes) :=
    (corrected_clearBoosts (List.Subset.refl nodes) c).relaxed
  refine h.relaxed (hclear a nodes) (hclear b nodes') (fun n hn => ?_) (fun n hn => ?_) ?_
  · rw [node_clearBoosts, node_clearBoosts]
    by_cases hmem : n ∈ nodes
    · rw [if_pos hmem, if_pos ((hnodes n).mpr hmem)]
      exact w.clearBoost (h.node n hn)
    · rw [if_neg hmem, if_neg (mt (hnodes n).mp hmem)]
      exact h.node n hn
  · have hmem : n ∉ nodes := fun hmem => hn (hseen n hmem)
    rw [node_clearBoosts, node_clearBoosts, if_neg hmem, if_neg (mt (hnodes n).mp hmem)]
    exact h.rest n hn
  · rw [readings_clearBoosts, readings_clearBoosts]
    exact h.readings

end Abreast

end Assembly

/-! ### Relaxing both -/

namespace Act

open Assembly (Abreast Alike Relaxed)

variable [Scalar α] {F : Fault α → Fault α → Prop} {w : Comparison α} {s s' : SystemId} {o o' : Assembly α}
  {constraints : List ConstraintId}

/-- Relaxing two systems concurs if their boosts are cleared alike, a pass over their constraints concurs, and positions
are finite alike. -/
theorem concur_correct_abreast
    (hcap : (o'.config (o'.system s').config).cap = (o.config (o.system s).config).cap)
    (hlisted : ∀ n, n ∈ (o'.system s').nodes ↔ n ∈ (o.system s).nodes)
    (hfinite : ∀ a b, Abreast w constraints a b → ∀ n ∈ (o.system s).nodes, (b.node n).isFinite = (a.node n).isFinite)
    (hclear : ∀ a b, Abreast w constraints a b → Relaxed o a → Relaxed o' b →
      Abreast w constraints (a.clearBoosts (o.nodesOf (o.system s).constraints))
        (b.clearBoosts (o'.nodesOf (o'.system s').constraints)))
    (hall : ∀ a b, Abreast w constraints a b → Relaxed o a → Relaxed o' b →
      Concur F (fun met met' a' b' => met' = met ∧ Abreast w constraints a' b')
        (correctAll (o.system s).constraints) (correctAll (o'.system s').constraints) a b)
    (hstart : Abreast w constraints (o.clearBoosts (o.nodesOf (o.system s).constraints))
      (o'.clearBoosts (o'.nodesOf (o'.system s').constraints))) :
    Concur F (fun k k' a' b' => k' = k ∧ (1 ≤ k → Abreast w constraints a' b')) (correct s) (correct s') o o' := by
  -- between sweeps the two need be abreast only with their boosts cleared; after a sweep they are abreast as such
  let R (a b : Assembly α) : Prop := Relaxed o a ∧ Relaxed o' b ∧
    Abreast w constraints (a.clearBoosts (o.nodesOf (o.system s).constraints))
      (b.clearBoosts (o'.nodesOf (o'.system s').constraints))
  let R' (a b : Assembly α) : Prop := Relaxed o a ∧ Relaxed o' b ∧ Abreast w constraints a b
  have hkeeps (l : List ConstraintId) : Keeps Relaxed (correctAll (α := α) l) := fun a =>
    (runs_correctAll (List.Subset.refl _)).mono fun _ _ h => h.relaxed
  have hsweep (first : Bool) (a b : Assembly α) (h : R a b) :
      Concur F (fun met met' a' b' => met' = met ∧ R' a' b') (sweep first (o.system s).constraints)
        (sweep first (o'.system s').constraints) a b := by
    obtain ⟨ha, hb, hab⟩ := h
    have hprepared : Alike (a.clearBoosts (o.nodesOf (o.system s).constraints))
        (a.prepareAll first (o.system s).constraints) := by
      rw [← ha.nodesOf]
      exact alike_prepareAll (.refl a) first _
    have hprepared' : Alike (b.clearBoosts (o'.nodesOf (o'.system s').constraints))
        (b.prepareAll first (o'.system s').constraints) := by
      rw [← hb.nodesOf]
      exact alike_prepareAll (.refl b) first _
    refine concur_bind (T := fun _ _ a' b' => R' a' b') (concur_change ?_) fun _ _ a' b' ⟨ha', hb', hab'⟩ => ?_
    · exact ⟨trans_of _ ha (Assembly.relaxed_prepareAll ..), trans_of _ hb (Assembly.relaxed_prepareAll ..),
        hab.alike hprepared hprepared'⟩
    · refine ((hall a' b' hab' ha' hb').framed (hkeeps _) (hkeeps _)).mono ?_
      rintro met met' a'' b'' ⟨⟨hmet, hab''⟩, ha'', hb''⟩
      exact ⟨hmet, trans_of _ ha' ha'', trans_of _ hb' hb'', hab''⟩
  have hend (a b : Assembly α) (h : R' a b) : b.isFinite s' = a.isFinite s := by
    obtain ⟨ha, hb, hab⟩ := h
    unfold Assembly.isFinite
    rw [ha.system, hb.system, Bool.eq_iff_iff, List.all_eq_true, List.all_eq_true]
    constructor
    · intro hall n hn
      rw [← hfinite a b hab n hn]
      exact hall n ((hlisted n).mpr hn)
    · intro hall n hn
      rw [hfinite a b hab n ((hlisted n).mp hn)]
      exact hall n ((hlisted n).mp hn)
  have hrun : Concur F (fun k k' a' b' => k' = k ∧ (1 ≤ k → R' a' b')) (correct s) (correct s') o o' := by
    refine concur_correct ?_
    rw [hcap]
    exact concur_sweepsFrom hsweep (fun a b ⟨ha, hb, hab⟩ => ⟨ha, hb, hclear a b hab ha hb⟩) hend _ 0
      ⟨refl_of _ o, refl_of _ o', hstart⟩
  exact hrun.mono fun k k' a' b' ⟨hk, h⟩ => ⟨hk, fun hpos => (h hpos).2.2⟩

end Act

end Linkage
