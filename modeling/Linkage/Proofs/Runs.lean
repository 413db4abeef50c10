import Linkage.Session
import Mathlib.Order.Defs.Unbundled

/-!
# Linkage.Proofs.Runs — a small program logic for session actions

`Runs p a Q` says that `p`, run on the assembly `a` with whatever journal, ends with an answer (a value or a fault)
and an assembly that satisfy `Q`.  Actions always end, so this is total correctness, and since `Q` does not see the
journal it also covers what tracing has to do with the outcome: nothing, where call and result can be written
(`runs_traced`), and a failure where they cannot (`runs_traced_or`).  Rules for every way in which actions are put together.

`Keeps R p` says that `p` leads from every assembly to an `R`-related one; for a preorder `R` it passes through
sequencing, so that a frame is proved once for every primitive action.
-/

namespace Linkage.Act

variable {α β γ : Type}

/-- What an action answers in a session: its value, or why it failed. -/
def answer (p : Act α β) (st : Session α) : Except (Fault α) β :=
  match p st with
  | .ok b _ => .ok b
  | .error e _ => .error e

/-- The session that an action leaves, whether it fails or not. -/
def after (p : Act α β) (st : Session α) : Session α :=
  match p st with
  | .ok _ st => st
  | .error _ st => st

/-- Values can be compared where faults cannot. -/
theorem eq_ok_of_toOption {r : Except (Fault α) β} {b : β} (h : r.toOption = some b) : r = .ok b := by
  cases r with
  | ok x => exact congrArg Except.ok (Option.some.inj h)
  | error e => exact nomatch h

theorem exists_error_of_not_isOk {r : Except (Fault α) β} (h : r.isOk = false) : ∃ fault, r = .error fault := by
  cases r with
  | ok x => exact nomatch h
  | error e => exact ⟨e, rfl⟩

section Bind

variable {p : Act α β} {f : β → Act α γ} {st : Session α}

theorem answer_bind_ok {x : β} (h : p.answer st = .ok x) : (p >>= f).answer st = (f x).answer (p.after st) := by
  unfold answer after at *
  simp only [bind, EStateM.bind]
  cases hp : p st with
  | ok y st' => rw [hp] at h; cases h; rfl
  | error e st' => rw [hp] at h; exact nomatch h

theorem after_bind_ok {x : β} (h : p.answer st = .ok x) : (p >>= f).after st = (f x).after (p.after st) := by
  unfold answer at h
  unfold after
  simp only [bind, EStateM.bind]
  cases hp : p st with
  | ok y st' => rw [hp] at h; cases h; rfl
  | error e st' => rw [hp] at h; exact nomatch h

theorem answer_bind_error {e : Fault α} (h : p.answer st = .error e) : (p >>= f).answer st = .error e := by
  unfold answer at *
  simp only [bind, EStateM.bind]
  cases hp : p st with
  | ok y st' => rw [hp] at h; exact nomatch h
  | error e' st' => rw [hp] at h; cases h; rfl

theorem answer_bind_eq_ok {y : γ} (h : (p >>= f).answer st = .ok y) :
    ∃ x, p.answer st = .ok x ∧ (f x).answer (p.after st) = .ok y := by
  cases hp : p.answer st with
  | ok x =>
    rw [answer_bind_ok hp] at h
    exact ⟨x, rfl, h⟩
  | error e =>
    rw [answer_bind_error hp] at h
    exact nomatch h

theorem answer_bind_pure {g : β → γ} : (p >>= fun b => pure (g b)).answer st = g <$> p.answer st := by
  cases hp : p.answer st with
  | ok x => exact answer_bind_ok hp
  | error e => exact answer_bind_error hp

theorem after_bind_pure {g : β → γ} : (p >>= fun b => pure (g b)).after st = p.after st := by
  unfold after
  simp only [bind, EStateM.bind]
  cases p st with
  | ok x st' => rfl
  | error e st' => rfl

end Bind

/-- Run on `a` with whatever journal, `p` ends with an answer and an assembly that satisfy `Q`. -/
def Runs (p : Act α β) (a : Assembly α) (Q : Except (Fault α) β → Assembly α → Prop) : Prop :=
  ∀ j, Q (p.answer ⟨a, j⟩) (p.after ⟨a, j⟩).assembly

variable {p : Act α β} {f : β → Act α γ} {a : Assembly α}

theorem Runs.mono {Q Q' : Except (Fault α) β → Assembly α → Prop} (h : Runs p a Q)
    (hQ : ∀ r b, Q r b → Q' r b) : Runs p a Q' := fun j => hQ _ _ (h j)

theorem Runs.and {Q Q' : Except (Fault α) β → Assembly α → Prop} (h : Runs p a Q) (h' : Runs p a Q') :
    Runs p a fun r b => Q r b ∧ Q' r b := fun j => ⟨h j, h' j⟩

/-- What holds of the runs on the assembly of a session holds of the run in that session. -/
theorem Runs.at_session {Q : Except (Fault α) β → Assembly α → Prop} {st : Session α} (h : Runs p st.assembly Q) :
    Q (p.answer st) (p.after st).assembly := h st.journal

/-! ### Primitive actions -/

section Primitive

variable {Q : Except (Fault α) β → Assembly α → Prop}

theorem runs_pure {b : β} (hQ : Q (.ok b) a) : Runs (pure b) a Q := fun _ => hQ

theorem of_runs_pure {b : β} (h : Runs (pure b) a Q) : Q (.ok b) a := h (.empty Level.warning)

theorem runs_throw {e : Fault α} (hQ : Q (.error e) a) : Runs (throw e) a Q := fun _ => hQ

theorem runs_ofExcept {r : Except (Fault α) β} (hQ : Q r a) : Runs (ofExcept r) a Q := by
  cases r with
  | ok b => exact runs_pure hQ
  | error e => exact runs_throw hQ

theorem runs_assembly {Q : Except (Fault α) (Assembly α) → Assembly α → Prop} (hQ : Q (.ok a) a) :
    Runs assembly a Q := fun _ => hQ

theorem runs_change {g : Assembly α → Assembly α} {Q : Except (Fault α) Unit → Assembly α → Prop}
    (hQ : Q (.ok ()) (g a)) : Runs (change g) a Q := fun _ => hQ

theorem runs_report {channel : Channel} {level : Level} {message : Message α}
    {Q : Except (Fault α) Unit → Assembly α → Prop} (hQ : Q (.ok ()) a) : Runs (report channel level message) a Q :=
  fun _ => hQ

theorem runs_notice {d : Deprecation} {Q : Except (Fault α) Unit → Assembly α → Prop} (hQ : Q (.ok ()) a) :
    Runs (notice d) a Q := fun _ => hQ

end Primitive

/-! ### Putting actions together -/

section Compound

variable {Q : Except (Fault α) γ → Assembly α → Prop}

/-- What the first of two actions has to establish for both together to establish `Q`. -/
def Then (f : β → Act α γ) (Q : Except (Fault α) γ → Assembly α → Prop) : Except (Fault α) β → Assembly α → Prop
  | .ok b, a => Runs (f b) a Q
  | .error e, a => Q (.error e) a

@[simp] theorem then_ok (b : β) : Then f Q (.ok b) a = Runs (f b) a Q := rfl

@[simp] theorem then_error (e : Fault α) : Then f Q (.error e) a = Q (.error e) a := rfl

theorem runs_bind (h : Runs p a (Then f Q)) : Runs (p >>= f) a Q := by
  intro j
  have hp := h j
  simp only [answer, after, bind, EStateM.bind] at hp ⊢
  cases hr : p ⟨a, j⟩ with
  | ok b st =>
    rw [hr] at hp
    exact hp.at_session
  | error e st =>
    rw [hr] at hp
    exact hp

/-- A value computed from the answer of an action, which does no more than that. -/
theorem runs_bind_pure {g : β → γ} (h : Runs p a fun r b => Q (g <$> r) b) : Runs (p >>= fun b => pure (g b)) a Q := by
  refine runs_bind (h.mono fun r b hQ => ?_)
  cases r with
  | ok x => exact runs_pure hQ
  | error e => exact hQ

theorem runs_discard {p : Act α β} {Q : Except (Fault α) Unit → Assembly α → Prop}
    (h : Runs p a fun r b => Q ((fun _ => ()) <$> r) b) : Runs (discard p) a Q := by
  have hbind : discard p = p >>= fun _ => pure () := rfl
  rw [hbind]
  exact runs_bind_pure h

/-- Reading the assembly first: the rest runs with what was read. -/
theorem runs_read {f : Assembly α → Act α γ} (h : Runs (f a) a Q) : Runs (assembly >>= f) a Q :=
  runs_bind (runs_assembly h)

theorem of_runs_read {f : Assembly α → Act α γ} (h : Runs (assembly >>= f) a Q) : Runs (f a) a Q := h

/-- Changing the assembly first: the rest runs on the changed one. -/
theorem runs_after_change {g : Assembly α → Assembly α} {f : Unit → Act α γ} (h : Runs (f ()) (g a) Q) :
    Runs (change g >>= f) a Q := runs_bind (runs_change h)

theorem runs_after_report {channel : Channel} {level : Level} {message : Message α} {f : Unit → Act α γ}
    (h : Runs (f ()) a Q) : Runs (report channel level message >>= f) a Q := runs_bind (runs_report h)

theorem runs_outcome {Q : Except (Fault α) (Except (Fault α) β) → Assembly α → Prop}
    (h : Runs p a fun r b => Q (.ok r) b) : Runs (outcome p) a Q := by
  intro j
  have hp := h j
  simp only [answer, after, outcome] at hp ⊢
  cases hr : p ⟨a, j⟩ with
  | ok b st => rw [hr] at hp; exact hp
  | error e st => rw [hr] at hp; exact hp

/-! ### Tracing -/

section Writing

variable {refusal? : Nat → Option (Fault α)} {f : Unit → Act α γ} {st : Session α}

/-- Only the room of the journal decides what can be written. -/
theorem writing_apply (refusal? : Nat → Option (Fault α)) (st : Session α) : writing refusal? st =
    (refusal? st.journal.room).elim (.ok () st) fun fault => .error fault st := by
  have hroom : writing refusal? st = writing (fun _ => refusal? st.journal.room) st := rfl
  rw [hroom]
  cases refusal? st.journal.room with
  | none => rfl
  | some fault => rfl

/-- What can be written is no hindrance, -/
theorem writing_bind_of_none (h : refusal? st.journal.room = none) : (writing refusal? >>= f) st = f () st := by
  simp only [bind, EStateM.bind]
  rw [writing_apply, h]
  rfl

/-- and what cannot be ends everything. -/
theorem writing_bind_of_some {fault : Fault α} (h : refusal? st.journal.room = some fault) :
    (writing refusal? >>= f) st = .error fault st := by
  simp only [bind, EStateM.bind]
  rw [writing_apply, h]
  rfl

/-- Goes on unless something cannot be written. -/
theorem runs_after_writing (hrefused : ∀ room fault, refusal? room = some fault → Q (.error fault) a)
    (h : Runs (f ()) a Q) : Runs (writing refusal? >>= f) a Q := by
  intro j
  cases hroom : refusal? j.room with
  | some fault =>
    rw [answer, after, writing_bind_of_some hroom]
    exact hrefused j.room fault hroom
  | none =>
    rw [answer, after, writing_bind_of_none hroom]
    exact h j

end Writing

section Traced

variable [Scalar α] {channel : Channel} {operation : String} {call : Assembly α → Call α}
  {result : Assembly α → β → Option (Value α)} {Q : Except (Fault α) β → Assembly α → Prop} {st : Session α}

/-- A call that is not recorded is its work, -/
theorem traced_hidden (h : ¬st.journal.admits channel .debug) : traced channel operation call result p st = p st := by
  show (if st.journal.admits channel .debug then announced channel operation call result p else p) st = p st
  rw [if_neg h]

/-- and one that is recorded is announced. -/
theorem traced_shown (h : st.journal.admits channel .debug) :
    traced channel operation call result p st = announced channel operation call result p st := by
  show (if st.journal.admits channel .debug then announced channel operation call result p else p) st = _
  rw [if_pos h]

/-- Why a call fails in a session before its work: it would be recorded and cannot be written. -/
def refused? (channel : Channel) (call : Assembly α → Call α) (st : Session α) : Option (Fault α) :=
  if st.journal.admits channel .debug then (call st.assembly).refusal? st.journal.room else none

theorem refused?_hidden (h : ¬st.journal.admits channel .debug) : refused? channel call st = none := if_neg h

theorem refused?_shown (h : st.journal.admits channel .debug) :
    refused? channel call st = (call st.assembly).refusal? st.journal.room := if_pos h

/-- A call that is refused does nothing and records nothing. -/
theorem traced_of_refused {fault : Fault α} (h : refused? channel call st = some fault) :
    traced channel operation call result p st = .error fault st := by
  unfold refused? at h
  split at h
  case isFalse => cases h
  case isTrue hadmits =>
    rw [traced_shown hadmits]
    exact writing_bind_of_some h

/-- Tracing changes nothing but the journal, except that it fails where the call or the result cannot be written. -/
theorem Runs.at_traced_or (hcall : ∀ fault, refused? channel call st = some fault → Q (.error fault) st.assembly)
    (h : Runs p st.assembly fun r b => Q r b ∧ ∀ x, r = .ok x → ∀ room fault,
      ((result b x).bind fun v => v.refusal? Value.shownItems room) = some fault → Q (.error fault) b) :
    Q ((traced channel operation call result p).answer st) ((traced channel operation call result p).after st).assembly := by
  cases hrefused : refused? channel call st with
  | some fault =>
    rw [answer, after, traced_of_refused hrefused]
    exact hcall fault hrefused
  | none =>
    -- where the channel is open, the call and the result are written; otherwise neither is looked at
    by_cases hadmits : st.journal.admits channel .debug
    · rw [refused?_shown hadmits] at hrefused
      rw [answer, after, traced_shown hadmits]
      show Q ((writing (call st.assembly).refusal? >>= _).answer st)
        ((writing (call st.assembly).refusal? >>= _).after st).assembly
      rw [answer, after, writing_bind_of_none hrefused]
      refine (runs_after_report (runs_bind (runs_outcome (h.mono fun r b hQ => ?_)))).at_session
      cases r with
      | ok x => exact runs_read (runs_after_writing (hQ.2 x rfl) (runs_after_report (runs_pure hQ.1)))
      | error e => exact runs_after_report (runs_throw hQ.1)
    · rw [answer, after, traced_hidden hadmits]
      exact h.at_session.1

/-- Where the result can be written in any case, tracing changes nothing but the journal, if the call is not refused. -/
theorem Runs.at_traced (hcall : refused? channel call st = none) (h : Runs p st.assembly Q)
    (hresult : ∀ a b room, ((result a b).bind fun v => v.refusal? Value.shownItems room) = none
      := by exact fun _ _ _ => rfl) :
    Q ((traced channel operation call result p).answer st) ((traced channel operation call result p).after st).assembly := by
  refine Runs.at_traced_or (fun fault hfault => ?_) (h.mono fun r b hQ => ⟨hQ, fun x _ room fault hfault => ?_⟩)
  · cases hcall.symm.trans hfault
  · cases (hresult b x room).symm.trans hfault

/-- An action that is traced may fail for the tracing; but for that, tracing changes nothing but the journal. -/
theorem runs_traced_or (hcall : ∀ room fault, (call a).refusal? room = some fault → Q (.error fault) a)
    (h : Runs p a fun r b => Q r b ∧ ∀ x, r = .ok x → ∀ room fault,
      ((result b x).bind fun v => v.refusal? Value.shownItems room) = some fault → Q (.error fault) b) :
    Runs (traced channel operation call result p) a Q := by
  refine fun j => Runs.at_traced_or (fun fault hfault => ?_) h
  unfold refused? at hfault
  split at hfault
  · exact hcall j.room fault hfault
  · cases hfault

/-- What tracing shows of a call and its result can be written, however little room there is. -/
structure Writable (call : Assembly α → Call α) (result : Assembly α → β → Option (Value α)) : Prop where
  call : ∀ a room, (call a).refusal? room = none
  result : ∀ a b room, ((result a b).bind fun v => v.refusal? Value.shownItems room) = none

/-- Where the result can be written in any case, tracing fails at most where the call cannot be written. -/
theorem runs_traced_given (hcall : ∀ room fault, (call a).refusal? room = some fault → Q (.error fault) a) (h : Runs p a Q)
    (hresult : ∀ a b room, ((result a b).bind fun v => v.refusal? Value.shownItems room) = none
      := by exact fun _ _ _ => rfl) : Runs (traced channel operation call result p) a Q := by
  refine runs_traced_or hcall (h.mono fun r b hQ => ⟨hQ, fun x _ room fault hfault => ?_⟩)
  cases (hresult b x room).symm.trans hfault

/-- Where call and result can be written in any case, tracing changes nothing but the journal. -/
theorem runs_traced (h : Runs p a Q)
    (hwritable : Writable call result := by exact ⟨fun _ _ => rfl, fun _ _ _ => rfl⟩) :
    Runs (traced channel operation call result p) a Q := by
  refine runs_traced_given (fun room fault hfault => ?_) h hwritable.result
  cases (hwritable.call a room).symm.trans hfault

end Traced

end Compound

/-! ### Actions that keep to a relation -/

section Keeps

/-- `p` leads from every assembly to an `R`-related one, whether it fails or not. -/
def Keeps (R : Assembly α → Assembly α → Prop) (p : Act α β) : Prop := ∀ a, Runs p a fun _ b => R a b

variable {R : Assembly α → Assembly α → Prop}

theorem keeps_change {g : Assembly α → Assembly α} (h : ∀ a, R a (g a)) : Keeps R (change g) :=
  fun a => runs_change (h a)

theorem keeps_read {f : Assembly α → Act α β} (h : ∀ a, Runs (f a) a fun _ b => R a b) :
    Keeps R (assembly >>= f) := fun a => runs_read (h a)

theorem Keeps.outcome (h : Keeps R p) : Keeps R (outcome p) := fun a => runs_outcome (h a)

variable [IsPreorder (Assembly α) R]

theorem keeps_pure (b : β) : Keeps R (pure b : Act α β) := fun a => runs_pure (refl_of R a)

theorem keeps_throw (e : Fault α) : Keeps R (throw e : Act α β) := fun a => runs_throw (refl_of R a)

theorem keeps_ofExcept (r : Except (Fault α) β) : Keeps R (ofExcept r) := fun a => runs_ofExcept (refl_of R a)

theorem keeps_report (channel : Channel) (level : Level) (message : Message α) :
    Keeps R (report channel level message) := fun a => runs_report (refl_of R a)

/-- Once the first action has kept to `R`, the second has to keep to it from there on. -/
theorem then_of_rel {r : Except (Fault α) β} {b : Assembly α} (hab : R a b)
    (hf : ∀ x, Runs (f x) b fun _ c => R b c) : Then f (fun _ c => R a c) r b := by
  cases r with
  | ok x => exact (hf x).mono fun _ c hbc => trans_of R hab hbc
  | error e => exact hab

theorem Keeps.bind (hp : Keeps R p) (hf : ∀ b, Keeps R (f b)) : Keeps R (p >>= f) :=
  fun a => runs_bind ((hp a).mono fun _ b hab => then_of_rel hab fun x => hf x b)

theorem Keeps.traced [Scalar α] {channel : Channel} {operation : String} {call : Assembly α → Call α}
    {result : Assembly α → β → Option (Value α)} (h : Keeps R p) : Keeps R (traced channel operation call result p) :=
  fun a => runs_traced_or (fun _ _ _ => refl_of R a) ((h a).mono fun _ _ hab => ⟨hab, fun _ _ _ _ _ => hab⟩)

end Keeps

end Linkage.Act
