import Linkage.Proofs.Convergence

/-!
# Linkage.Proofs.Outcomes — what corrections that do not fail have done

Each pass and each correction gets a relation that says all that it can do to nodes when it succeeds (`Pulls`, `Turns`,
`Stretches`, `Swings`, `Corrects`), and a sweep is a chain of corrections (`Sweeps`).  The relations speak of nodes only;
how targets are read, the memory and the journal are gone (`runs_correctOne_ok`, `runs_bareSweep_ok`).  The last section
goes the other way, for corrections of pairs whose passes are known.
-/

namespace Linkage

variable {α : Type}

/-! ### Passes that succeed -/

section Pass

variable {σ β γ : Type}

theorem Pass.bind_ok {pass : Pass α σ β} {f : β → Pass α σ γ} {s s' : σ} {y : γ}
    (h : (pass >>= f) s = .ok y s') : ∃ x mid, pass s = .ok x mid ∧ f x mid = .ok y s' := by
  simp only [bind, EStateM.bind] at h
  cases hpass : pass s with
  | ok x mid =>
    rw [hpass] at h
    exact ⟨x, mid, rfl, h⟩
  | error fault mid =>
    rw [hpass] at h
    exact nomatch h

theorem Pass.then_ok {pass : Pass α σ β} {f : β → Pass α σ γ} {s s' : σ} {x : β} (h : pass s = .ok x s') :
    (pass >>= f) s = f x s' := by
  simp only [bind, EStateM.bind, h]

theorem Pass.ofExcept_ok {r : Except (Fault α) β} {s s' : σ} {x : β} (h : Pass.ofExcept r s = .ok x s') :
    r = .ok x ∧ s = s' := by
  cases r with
  | ok y => cases h; exact ⟨rfl, rfl⟩
  | error fault => exact nomatch h

end Pass

variable [Scalar α]

/-- Pulling ends within reach leaves them if they are, and moves them together otherwise. -/
inductive Pulls (cfg : Config α) (share : α × α) (e : Ends α) : Bool → Ends α → Prop where
  | within (near : ¬cfg.reach < e.vector.length) : Pulls cfg share e false e
  | beyond (far : cfg.reach < e.vector.length) (d : Vec α)
      (along : Scalar.divide (-(cfg.reach - e.vector.length) * e.vector.x) e.vector.length = .ok d.x)
      (above : Scalar.divide (-(cfg.reach - e.vector.length) * e.vector.y) e.vector.length = .ok d.y) :
      Pulls cfg share e (cfg.tolerance ≤ Scalar.abs (cfg.reach - e.vector.length)) (e.shift share d)

/-- Turning ends onto a line moves them by a correction and pulls them within reach. -/
inductive Turns (cfg : Config α) (direction : Direction) (target : α) (e : Ends α) : Bool → Ends α → Prop where
  | turned (heading : Vec α) (share : α × α) (pulled : Bool) (e' : Ends α)
      (towards : Scalar.heading target = .ok heading) (shared : e.shares = .ok share)
      (pulls : Pulls cfg share (e.shift share (direction.correction e.vector heading)) pulled e') :
      Turns cfg direction target e
        (!pulled && Scalar.abs (direction.correction e.vector heading).x < cfg.tolerance &&
          Scalar.abs (direction.correction e.vector heading).y < cfg.tolerance) e'.addBoost

/-- Bringing ends to a distance leaves them if they are near it. -/
inductive Stretches (cfg : Config α) (target : α) (e : Ends α) : Bool → Ends α → Prop where
  | met (near : Scalar.abs (target - e.vector.length) < cfg.tolerance) : Stretches cfg target e true e
  | moved (share : α × α) (d : Vec α) : Stretches cfg target e false (e.shift share d).addBoost

/-- Swinging the arm of a triple moves it across the wanted ray. -/
inductive Swings (cfg : Config α) (k : Corner α) : Bool → Corner α → Prop where
  | swung (share : α) (d : Vec α) (shared : k.armShare = .ok share) :
      Swings cfg k (Scalar.abs d.x < cfg.tolerance && Scalar.abs d.y < cfg.tolerance)
        { k with arm := (k.arm.moveTo (k.arm.x - share * d.x) (k.arm.y - share * d.y)).addBoost }

theorem pulls_of_reachPass {cfg : Config α} {share : α × α} {e e' : Ends α} {pulled : Bool}
    (h : reachPass cfg share e = .ok pulled e') : Pulls cfg share e pulled e' := by
  -- the steps of the pass, one by one: none of them fails, so that each leaves what it says
  obtain ⟨_, _, hget, h⟩ := Pass.bind_ok h
  cases hget
  dsimp only at h
  split at h
  case isTrue far =>
    obtain ⟨dx, _, hdx, h⟩ := Pass.bind_ok h
    obtain ⟨along, rfl⟩ := Pass.ofExcept_ok hdx
    obtain ⟨dy, _, hdy, h⟩ := Pass.bind_ok h
    obtain ⟨above, rfl⟩ := Pass.ofExcept_ok hdy
    obtain ⟨_, _, hmodify, h⟩ := Pass.bind_ok h
    cases hmodify
    cases h
    exact .beyond far ⟨dx, dy⟩ along above
  case isFalse near =>
    cases h
    exact .within near

theorem turns_of_anglePass {cfg : Config α} {direction : Direction} {target : α} {e e' : Ends α} {met : Bool}
    (h : anglePass cfg direction target e = .ok met e') : Turns cfg direction target e met e' := by
  obtain ⟨heading, _, hheading, h⟩ := Pass.bind_ok h
  obtain ⟨towards, rfl⟩ := Pass.ofExcept_ok hheading
  obtain ⟨_, _, hget, h⟩ := Pass.bind_ok h
  cases hget
  obtain ⟨share, _, hshare, h⟩ := Pass.bind_ok h
  obtain ⟨shared, rfl⟩ := Pass.ofExcept_ok hshare
  obtain ⟨_, _, hshift, h⟩ := Pass.bind_ok h
  cases hshift
  obtain ⟨pulled, e'', hpull, h⟩ := Pass.bind_ok h
  obtain ⟨_, _, hboost, h⟩ := Pass.bind_ok h
  cases hboost
  cases h
  exact .turned heading share pulled e'' towards shared (pulls_of_reachPass hpull)

theorem stretches_of_lengthPass {cfg : Config α} {target : α} {e e' : Ends α} {met : Bool}
    (h : lengthPass cfg target e = .ok met e') : Stretches cfg target e met e' := by
  obtain ⟨_, _, hget, h⟩ := Pass.bind_ok h
  cases hget
  dsimp only at h
  split at h
  case isTrue near =>
    cases h
    exact .met near
  case isFalse =>
    obtain ⟨u, _, hdirection, h⟩ := Pass.bind_ok h
    obtain ⟨-, rfl⟩ := Pass.ofExcept_ok hdirection
    obtain ⟨share, _, hshare, h⟩ := Pass.bind_ok h
    obtain ⟨-, rfl⟩ := Pass.ofExcept_ok hshare
    obtain ⟨_, _, hshift, h⟩ := Pass.bind_ok h
    cases hshift
    obtain ⟨_, _, hboost, h⟩ := Pass.bind_ok h
    cases hboost
    cases h
    exact .moved share _

theorem swings_of_rayPass {cfg : Config α} {target : α} {k k' : Corner α} {met : Bool}
    (h : rayPass cfg target k = .ok met k') : Swings cfg k met k' := by
  obtain ⟨_, _, hget, h⟩ := Pass.bind_ok h
  cases hget
  obtain ⟨c, _, hc, h⟩ := Pass.bind_ok h
  obtain ⟨-, rfl⟩ := Pass.ofExcept_ok hc
  obtain ⟨s, _, hs, h⟩ := Pass.bind_ok h
  obtain ⟨-, rfl⟩ := Pass.ofExcept_ok hs
  obtain ⟨turn, _, hturn, h⟩ := Pass.bind_ok h
  obtain ⟨-, rfl⟩ := Pass.ofExcept_ok hturn
  obtain ⟨share, _, hshare, h⟩ := Pass.bind_ok h
  obtain ⟨shared, rfl⟩ := Pass.ofExcept_ok hshare
  obtain ⟨_, _, hset, h⟩ := Pass.bind_ok h
  cases hset
  cases h
  exact .swung share _ shared

/-! ### Corrections and sweeps that succeed -/

/-- The nodes with the two ends of a pair replaced. -/
def Ends.put (e : Ends α) (first second : NodeId) (node : NodeId → Node α) (n : NodeId) : Node α :=
  if second = n then e.second else if first = n then e.first else node n

/-- The nodes with the three nodes of a triple replaced. -/
def Corner.put (k : Corner α) (apex ray arm : NodeId) (node : NodeId → Node α) (n : NodeId) : Node α :=
  if arm = n then k.arm else if ray = n then k.ray else if apex = n then k.apex else node n

/-- A target of a pair is free, or a pass runs with a value of it. -/
inductive Meets (pass : α → Pass α (Ends α) Bool) (first second : NodeId) (node : NodeId → Node α) :
    Option (Target α) → Bool → (NodeId → Node α) → Prop where
  | free : Meets pass first second node none true node
  | passed (t : Target α) (target : α) (met : Bool) (e : Ends α) (value : ∀ x, t = .fixed x → target = x)
      (ran : pass target ⟨node first, node second⟩ = .ok met e) :
      Meets pass first second node (some t) met (e.put first second node)

/-- Correcting a constraint that has the configuration `cfg` takes the nodes to others, with an answer. -/
inductive Corrects (cfg : Config α) (k : Constraint α) (node : NodeId → Node α) :
    Bool → (NodeId → Node α) → Prop where
  | pair {first second : NodeId} {direction : Direction} {angleMet lengthMet : Bool} {mid node' : NodeId → Node α}
      (shape : k.shape = .pair first second direction)
      (angle : Meets (anglePass cfg direction) first second node k.angleTarget angleMet mid)
      (length : Meets (lengthPass cfg) first second mid k.lengthTarget lengthMet node') :
      Corrects cfg k node (lengthMet && angleMet) node'
  /-- A triple with no target, or with a first ray too short to measure an angle against. -/
  | idle {apex ray arm : NodeId} (shape : k.shape = .triple apex ray arm)
      (idle : k.angleTarget = none ∨ (⟨node apex, node ray, node arm⟩ : Corner α).isFlat) : Corrects cfg k node true node
  | triple {apex ray arm : NodeId} {met : Bool} {corner : Corner α} (shape : k.shape = .triple apex ray arm)
      (angle : k.angleTarget.isSome) (swings : Swings cfg ⟨node apex, node ray, node arm⟩ met corner)
      (long : ¬(⟨node apex, node ray, node arm⟩ : Corner α).isFlat) : Corrects cfg k node met (corner.put apex ray arm node)

/-- Correcting constraints one after the other takes the nodes to others, with an answer from each. -/
inductive Sweeps (cfg : ConstraintId → Config α) (constraint : ConstraintId → Constraint α) :
    (NodeId → Node α) → List ConstraintId → List Bool → (NodeId → Node α) → Prop where
  | nil (node : NodeId → Node α) : Sweeps cfg constraint node [] [] node
  | cons {node mid node' : NodeId → Node α} {c : ConstraintId} {rest : List ConstraintId} {met : Bool}
      {answers : List Bool} (first : Corrects (cfg c) (constraint c) node met mid)
      (later : Sweeps cfg constraint mid rest answers node') :
      Sweeps cfg constraint node (c :: rest) (met :: answers) node'

/-- The first part of a sweep ends where the second begins. -/
theorem Sweeps.split {cfg : ConstraintId → Config α} {constraint : ConstraintId → Constraint α}
    {node node' : NodeId → Node α} {before after : List ConstraintId} {answers : List Bool}
    (h : Sweeps cfg constraint node (before ++ after) answers node') : ∃ mid earlier later,
      answers = earlier ++ later ∧ Sweeps cfg constraint node before earlier mid ∧
        Sweeps cfg constraint mid after later node' := by
  induction before generalizing node answers with
  | nil => exact ⟨node, [], answers, rfl, .nil node, h⟩
  | cons c rest ih =>
    cases h with
    | cons first later =>
      obtain ⟨mid, earlier, answers, rfl, hrest, hafter⟩ := ih later
      exact ⟨mid, _ :: earlier, answers, rfl, .cons first hrest, hafter⟩

namespace Act

open Assembly (Corrected SameDesign)

theorem runs_onEnds_ok {β : Type} (a : Assembly α) (first second : NodeId) (pass : Pass α (Ends α) β) :
    Runs (onEnds first second pass) a fun r b => ∀ x, r = .ok x →
      ∃ e, pass ⟨a.node first, a.node second⟩ = .ok x e ∧ b.node = e.put first second a.node := by
  refine runs_read ?_
  cases hpass : pass ⟨a.node first, a.node second⟩ with
  | error fault e => exact runs_after_change (runs_throw fun x hx => nomatch hx)
  | ok y e =>
    refine runs_after_change (runs_pure ?_)
    rintro _ ⟨⟩
    refine ⟨e, rfl, funext fun n => ?_⟩
    rw [Assembly.node_setNode, Assembly.node_setNode]
    rfl

theorem runs_onCorner_ok {β : Type} (a : Assembly α) (apex ray arm : NodeId) (pass : Pass α (Corner α) β) :
    Runs (onCorner apex ray arm pass) a fun r b => ∀ x, r = .ok x →
      ∃ k, pass ⟨a.node apex, a.node ray, a.node arm⟩ = .ok x k ∧ b.node = k.put apex ray arm a.node := by
  refine runs_read ?_
  cases hpass : pass ⟨a.node apex, a.node ray, a.node arm⟩ with
  | error fault k => exact runs_after_change (runs_throw fun x hx => nomatch hx)
  | ok y k =>
    refine runs_after_change (runs_pure ?_)
    rintro _ ⟨⟩
    refine ⟨k, rfl, funext fun n => ?_⟩
    rw [Assembly.node_setNode, Assembly.node_setNode, Assembly.node_setNode]
    rfl

/-- What reading a target that may be missing says of it: whether there is one, and its value if that is fixed. -/
def ReadAs (t? : Option (Target α)) (target? : Option α) : Prop :=
  t?.isSome = target?.isSome ∧ ∀ x, t? = some (.fixed x) → target? = some x

theorem runs_optional_as (a : Assembly α) (c : ConstraintId) (t? : Option (Target α)) :
    Runs (match t? with
      | some t => return some (← evaluate c t)
      | none => return none) a fun r b => (SameDesign a b ∧ b.node = a.node) ∧ ∀ target?, r = .ok target? →
        ReadAs t? target? := by
  cases t? with
  | none =>
    refine runs_pure ⟨⟨.refl a, rfl⟩, ?_⟩
    rintro _ ⟨⟩
    exact ⟨rfl, fun x hx => nomatch hx⟩
  | some t =>
    have hvalue : Runs (evaluate c t) a fun r b =>
        (SameDesign a b ∧ b.node = a.node) ∧ ∀ target, r = .ok target → ∀ x, t = .fixed x → target = x := by
      cases t with
      | fixed y =>
        refine runs_pure ⟨⟨.refl a, rfl⟩, ?_⟩
        rintro _ ⟨⟩ x ⟨⟩
        rfl
      | computed k =>
        exact (runs_evaluate a c (.computed k)).mono fun r b h =>
          ⟨⟨h.1.toSameDesign, funext h.1.node⟩, fun _ _ x hx => nomatch hx⟩
    refine runs_bind_pure (hvalue.mono fun r b ⟨hsame, hr⟩ => ⟨hsame, fun target? htarget => ?_⟩)
    cases r with
    | error fault => exact nomatch htarget
    | ok target =>
      cases htarget
      refine ⟨rfl, ?_⟩
      rintro x ⟨⟩
      exact congrArg some (hr target rfl x rfl)

theorem runs_targetLength_as (a : Assembly α) (c : ConstraintId) : Runs (targetLength c) a fun r b =>
    (SameDesign a b ∧ b.node = a.node) ∧ ∀ target?, r = .ok target? →
      ReadAs (a.constraint c).lengthTarget target? := runs_read (runs_optional_as a c _)

theorem runs_targetAngle_as (a : Assembly α) (c : ConstraintId) : Runs (targetAngle c) a fun r b =>
    (SameDesign a b ∧ b.node = a.node) ∧ ∀ target?, r = .ok target? →
      ReadAs (a.constraint c).angleTarget target? := runs_read (runs_optional_as a c _)

/-- A pass towards a value read from a target. -/
theorem runs_meet_ok {t? : Option (Target α)} {target? : Option α} (hread : ReadAs t? target?) (a : Assembly α)
    (first second : NodeId) (pass : α → Pass α (Ends α) Bool) :
    Runs (meet (fun target => onEnds first second (pass target)) target?) a fun r b => ∀ met, r = .ok met →
      Meets pass first second a.node t? met b.node := by
  obtain ⟨hsome, hfixed⟩ := hread
  cases target? with
  | none =>
    obtain rfl : t? = none := by simpa using hsome
    refine runs_pure ?_
    rintro _ ⟨⟩
    exact .free
  | some target =>
    obtain ⟨t, rfl⟩ : ∃ t, t? = some t := Option.isSome_iff_exists.mp hsome
    refine (runs_onEnds_ok a first second (pass target)).mono fun r b hpass met hmet => ?_
    obtain ⟨e, hran, hput⟩ := hpass met hmet
    rw [hput]
    exact .passed t target met e (fun x hx => Option.some.inj (hfixed x (congrArg some hx))) hran

/-- A correction of a pair that does not fail. -/
theorem runs_correctOne_pair_ok {a : Assembly α} {c : ConstraintId} {first second : NodeId} {direction : Direction}
    (hshape : (a.constraint c).shape = .pair first second direction) :
    Runs (correctOne c) a fun r b => ∀ met, r = .ok met →
      Corrects (a.configOf c) (a.constraint c) a.node met b.node := by
  have hkeep (angle? : Option α) : Keeps (Corrected [first, second])
      (meet (fun target => onEnds first second (anglePass (a.configOf c) direction target)) angle?) := by
    cases angle? with
    | some target => exact keeps_onEnds (by simp) (by simp) _
    | none => exact keeps_pure true
  refine runs_read ?_
  rw [hshape]
  -- four steps, the first fault of which would be that of the correction: read, pass, read, pass
  refine runs_bind ((runs_targetAngle_as a c).mono fun r b ⟨⟨hdesign, hnode⟩, hread⟩ => ?_)
  cases r with
  | error fault => exact fun met hmet => nomatch hmet
  | ok angle? =>
    rw [then_ok]
    refine runs_bind (((runs_meet_ok (hread angle? rfl) b first second _).and (hkeep angle? b)).mono
      fun r mid ⟨hangle, hcorrected⟩ => ?_)
    cases r with
    | error fault => exact fun met hmet => nomatch hmet
    | ok angleMet =>
      rw [then_ok]
      refine runs_bind ((runs_targetLength_as mid c).mono fun r mid' ⟨⟨_, hnode'⟩, hread'⟩ => ?_)
      cases r with
      | error fault => exact fun met hmet => nomatch hmet
      | ok length? =>
        rw [then_ok]
        refine runs_bind_pure ((runs_meet_ok (hread' length? rfl) mid' first second _).mono
          fun r b' hlength met hmet => ?_)
        cases r with
        | error fault => exact nomatch hmet
        | ok lengthMet =>
          cases hmet
          have hangle := hangle angleMet rfl
          have hlength := hlength lengthMet rfl
          rw [hnode] at hangle
          rw [hnode', (hdesign.trans hcorrected.toSameDesign).constraint] at hlength
          exact .pair hshape hangle hlength

/-- A correction of a triple that does not fail. -/
theorem runs_correctOne_triple_ok {a : Assembly α} {c : ConstraintId} {apex ray arm : NodeId}
    (hshape : (a.constraint c).shape = .triple apex ray arm) :
    Runs (correctOne c) a fun r b => ∀ met, r = .ok met →
      Corrects (a.configOf c) (a.constraint c) a.node met b.node := by
  have hidle (h : (a.constraint c).angleTarget = none ∨ (⟨a.node apex, a.node ray, a.node arm⟩ : Corner α).isFlat) :
      Runs (pure true : Act α Bool) a fun r b => ∀ met, r = .ok met →
        Corrects (a.configOf c) (a.constraint c) a.node met b.node := by
    refine runs_pure ?_
    rintro _ ⟨⟩
    exact .idle hshape h
  refine runs_read ?_
  rw [hshape]
  cases htarget : (a.constraint c).angleTarget with
  | none => exact hidle (Or.inl htarget)
  | some t =>
    dsimp only
    split
    case isTrue hflat => exact hidle (Or.inr hflat)
    case isFalse hlong =>
      refine runs_bind ((runs_evaluate a c t).mono fun r b ⟨hread, _⟩ => ?_)
      cases r with
      | error fault => exact fun met hmet => nomatch hmet
      | ok target =>
        rw [then_ok]
        refine (runs_onCorner_ok b apex ray arm _).mono fun r' b' hpass met hmet => ?_
        obtain ⟨corner, hran, hput⟩ := hpass met hmet
        rw [show b.node = a.node from funext hread.node] at hran hput
        rw [hput]
        exact .triple hshape (by rw [htarget]; rfl) (swings_of_rayPass hran) hlong

theorem runs_correctOne_ok (a : Assembly α) (c : ConstraintId) : Runs (correctOne c) a fun r b => ∀ met, r = .ok met →
    Corrects (a.configOf c) (a.constraint c) a.node met b.node := by
  cases hshape : (a.constraint c).shape with
  | pair first second direction => exact runs_correctOne_pair_ok hshape
  | triple apex ray arm => exact runs_correctOne_triple_ok hshape

/-- A chain of corrections that does not fail. -/
theorem runs_answersOf_ok (a : Assembly α) (constraints : List ConstraintId) :
    Runs (answersOf constraints) a fun r b => ∀ answers, r = .ok answers →
      Sweeps a.configOf a.constraint a.node constraints answers b.node := by
  -- by induction on the constraints: configuration and constraints are still those of `a` for the later corrections
  induction constraints generalizing a with
  | nil =>
    refine runs_pure ?_
    rintro _ ⟨⟩
    exact .nil a.node
  | cons c rest ih =>
    refine runs_bind (((runs_correctOne_ok a c).and (runs_correctOne (List.Subset.refl _))).mono
      fun r mid ⟨hfirst, hcorrected⟩ => ?_)
    cases r with
    | error fault => exact fun answers hanswers => nomatch hanswers
    | ok met =>
      rw [then_ok]
      refine runs_bind_pure ((ih mid).mono fun r' b hlater answers hanswers => ?_)
      cases r' with
      | error fault => exact nomatch hanswers
      | ok later =>
        cases hanswers
        have hlater := hlater later rfl
        rw [show mid.configOf = a.configOf from funext hcorrected.samePlan.configOf,
          show mid.constraint = a.constraint from funext hcorrected.constraint] at hlater
        exact .cons (hfirst met rfl) hlater

/-- A bare sweep that does not fail corrects its constraints one after the other, with all boosts cleared before. -/
theorem runs_bareSweep_ok (a : Assembly α) (constraints : List ConstraintId) :
    Runs (bareSweep constraints) a fun r b => ∀ answers, r = .ok answers →
      Sweeps a.configOf a.constraint (a.clearBoosts (a.nodesOf constraints)).node constraints answers b.node := by
  have hclear : Corrected (a.nodesOf constraints) a (a.clearBoosts (a.nodesOf constraints)) :=
    Assembly.corrected_clearBoosts (List.Subset.refl _) a
  refine runs_after_change ((runs_answersOf_ok _ constraints).mono fun r b hsweeps answers hanswers => ?_)
  have hsweeps := hsweeps answers hanswers
  rwa [show Assembly.configOf _ = a.configOf from funext hclear.samePlan.configOf,
    show Assembly.constraint _ = a.constraint from funext hclear.constraint] at hsweeps

end Act

/-! ### Passes and corrections that are known to succeed -/

theorem lengthPass_of_near {cfg : Config α} {target : α} {e : Ends α}
    (near : Scalar.abs (target - e.vector.length) < cfg.tolerance) : lengthPass cfg target e = .ok true e := by
  have hget : (get : Pass α (Ends α) (Ends α)) e = .ok e e := rfl
  refine (Pass.then_ok hget).trans ?_
  rw [if_pos near]
  rfl

/-- What pulling ends can do, it does. -/
theorem reachPass_of_pulls {cfg : Config α} {share : α × α} {e e' : Ends α} {pulled : Bool}
    (h : Pulls cfg share e pulled e') : reachPass cfg share e = .ok pulled e' := by
  have hget : (get : Pass α (Ends α) (Ends α)) e = .ok e e := rfl
  refine (Pass.then_ok hget).trans ?_
  dsimp only
  cases h with
  | within near =>
    rw [if_neg near]
    rfl
  | beyond far d along above =>
    rw [if_pos far, along, above]
    rfl

/-- What turning ends can do, it does. -/
theorem anglePass_of_turns {cfg : Config α} {direction : Direction} {target : α} {e e' : Ends α} {met : Bool}
    (h : Turns cfg direction target e met e') : anglePass cfg direction target e = .ok met e' := by
  cases h with
  | turned heading share pulled e'' towards shared pulls =>
    have hheading : Pass.ofExcept (Scalar.heading target) e = .ok heading e := by
      rw [towards]
      rfl
    have hget : (get : Pass α (Ends α) (Ends α)) e = .ok e e := rfl
    have hshare : Pass.ofExcept e.shares e = .ok share e := by
      rw [shared]
      rfl
    have hmove (d : Vec α) : (modify fun e => e.shift share d : Pass α (Ends α) PUnit) e = .ok ⟨⟩ (e.shift share d) :=
      rfl
    refine (Pass.then_ok hheading).trans ((Pass.then_ok hget).trans ((Pass.then_ok hshare).trans ?_))
    refine (Pass.then_ok (hmove _)).trans ((Pass.then_ok (reachPass_of_pulls pulls)).trans ?_)
    rfl

/-- Turning ends that stay within reach. -/
theorem anglePass_of_near {cfg : Config α} {direction : Direction} {target : α} {e : Ends α} {heading d : Vec α}
    {share : α × α} (towards : Scalar.heading target = .ok heading) (shared : e.shares = .ok share)
    (hd : direction.correction e.vector heading = d) (near : ¬cfg.reach < (e.shift share d).vector.length) :
    anglePass cfg direction target e =
      .ok (Scalar.abs d.x < cfg.tolerance && Scalar.abs d.y < cfg.tolerance) (e.shift share d).addBoost := by
  subst hd
  exact anglePass_of_turns (.turned heading share false _ towards shared (.within near))

namespace Act

theorem runs_onEnds {β : Type} {a : Assembly α} {first second : NodeId} {pass : Pass α (Ends α) β} {x : β} {e : Ends α}
    {Q : Except (Fault α) β → Assembly α → Prop} (hpass : pass ⟨a.node first, a.node second⟩ = .ok x e)
    (h : Q (.ok x) ((a.setNode first e.first).setNode second e.second)) : Runs (onEnds first second pass) a Q := by
  refine runs_read ?_
  rw [hpass]
  exact runs_after_change (runs_pure h)

theorem runs_onCorner {β : Type} {a : Assembly α} {apex ray arm : NodeId} {pass : Pass α (Corner α) β} {x : β}
    {k : Corner α} {Q : Except (Fault α) β → Assembly α → Prop}
    (hpass : pass ⟨a.node apex, a.node ray, a.node arm⟩ = .ok x k)
    (h : Q (.ok x) (((a.setNode apex k.apex).setNode ray k.ray).setNode arm k.arm)) :
    Runs (onCorner apex ray arm pass) a Q := by
  refine runs_read ?_
  rw [hpass]
  exact runs_after_change (runs_pure h)

/-- A pair that wants nothing but a length runs one pass. -/
theorem runs_correctOne_wanted {a : Assembly α} {c : ConstraintId} {first second : NodeId} {direction : Direction}
    {target : α} {met : Bool} {e : Ends α} (hshape : (a.constraint c).shape = .pair first second direction)
    (hangle : (a.constraint c).angleTarget = none)
    (hread : Runs (targetLength c) a fun r b => r = .ok (some target) ∧ b = a)
    (hpass : lengthPass (a.configOf c) target ⟨a.node first, a.node second⟩ = .ok met e) :
    Runs (correctOne c) a fun r b => r = .ok met ∧ b = (a.setNode first e.first).setNode second e.second := by
  have hnoAngle : Runs (targetAngle c) a fun r b => r = .ok none ∧ b = a := by
    refine runs_read ?_
    rw [hangle]
    exact runs_pure ⟨rfl, rfl⟩
  refine runs_read ?_
  rw [hshape]
  refine runs_bind (hnoAngle.mono ?_)
  rintro _ _ ⟨rfl, rfl⟩
  rw [then_ok]
  refine runs_bind (runs_pure ?_)
  rw [then_ok]
  refine runs_bind (hread.mono ?_)
  rintro _ _ ⟨rfl, rfl⟩
  rw [then_ok]
  refine runs_bind (runs_onEnds hpass ?_)
  rw [then_ok]
  exact runs_pure ⟨by rw [Bool.and_true], rfl⟩

/-- A fixed length is read as it is. -/
theorem runs_correctOne_length {a : Assembly α} {c : ConstraintId} {first second : NodeId} {direction : Direction}
    {target : α} {met : Bool} {e : Ends α} (hshape : (a.constraint c).shape = .pair first second direction)
    (hangle : (a.constraint c).angleTarget = none) (hlength : (a.constraint c).lengthTarget = some (.fixed target))
    (hpass : lengthPass (a.configOf c) target ⟨a.node first, a.node second⟩ = .ok met e) :
    Runs (correctOne c) a fun r b => r = .ok met ∧ b = (a.setNode first e.first).setNode second e.second := by
  have hread : Runs (targetLength c) a fun r b => r = .ok (some target) ∧ b = a := by
    refine runs_read ?_
    rw [hlength]
    exact runs_pure ⟨rfl, rfl⟩
  exact runs_correctOne_wanted hshape hangle hread hpass

/-- A pair that wants nothing but a fixed angle runs one pass. -/
theorem runs_correctOne_angle {a : Assembly α} {c : ConstraintId} {first second : NodeId} {direction : Direction}
    {target : α} {met : Bool} {e : Ends α} (hshape : (a.constraint c).shape = .pair first second direction)
    (hangle : (a.constraint c).angleTarget = some (.fixed target)) (hlength : (a.constraint c).lengthTarget = none)
    (hpass : anglePass (a.configOf c) direction target ⟨a.node first, a.node second⟩ = .ok met e) :
    Runs (correctOne c) a fun r b => r = .ok met ∧ b = (a.setNode first e.first).setNode second e.second := by
  have hread : Runs (targetAngle c) a fun r b => r = .ok (some target) ∧ b = a := by
    refine runs_read ?_
    rw [hangle]
    exact runs_pure ⟨rfl, rfl⟩
  refine runs_read ?_
  rw [hshape]
  refine runs_bind (hread.mono ?_)
  rintro _ _ ⟨rfl, rfl⟩
  rw [then_ok]
  refine runs_bind (runs_onEnds hpass ?_)
  rw [then_ok]
  refine runs_bind (runs_read ?_)
  rw [Assembly.constraint_setNode, Assembly.constraint_setNode, hlength]
  refine runs_pure ?_
  rw [then_ok]
  refine runs_bind (runs_pure ?_)
  rw [then_ok]
  exact runs_pure ⟨by rw [Bool.true_and], rfl⟩

end Act

end Linkage
