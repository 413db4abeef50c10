import Linkage.Config.Standard
import Linkage.Proofs.Composition

/-!
# Linkage.Proofs.Traces — what tracing records, and what it does besides

A `Trace` is a tree of calls with the plain records around and inside them, and `Act.Tells` ties one to a run: a call is in
the trace if it is recorded in the run, and ends there as it ends in the run.  Every run of an operation is told by a trace,
whose records are those that the run adds (`Act.Tells.adds`), and reading them with a stack of open calls closes every
call in the order of nesting (`Trace.openCalls_records`).  A call that is recorded has to be written, and one that cannot be
is refused.  Programs that call operations, and go on as the answers and the assembly tell them to, do the same whatever
is traced, as far as none of their calls is refused (`tracingLaws`).
-/

namespace Linkage

variable {α : Type}

/-! ### Traces -/

/-- How a call ended. -/
inductive Ending (α : Type) where
  | returned (result : Option (Value α))
  | raised

/-- What a call records when it ends. -/
def Ending.message (operation : String) : Ending α → Message α
  | .returned result => .leaving operation result
  | .raised => .failing operation

/-- What is recorded one after the other: records that are not about calls, and calls with what is recorded inside. -/
inductive Trace (α : Type) where
  | finished
  | plain (r : Record α) (isPlain : r.message.IsPlain) (rest : Trace α)
  | call (channel : Channel) (operation : String) (arguments : Call α) (inside : Trace α) (ending : Ending α)
      (rest : Trace α)

namespace Trace

/-- The records of a trace: those of a call stand between its own two. -/
def records : Trace α → List (Record α)
  | finished => []
  | plain r _ rest => r :: rest.records
  | call channel operation arguments inside ending rest =>
    ⟨.debug, channel, .entering operation arguments⟩ ::
      (inside.records ++ ⟨.debug, channel, ending.message operation⟩ :: rest.records)

/-- One trace after the other. -/
def append : Trace α → Trace α → Trace α
  | finished, u => u
  | plain r isPlain rest, u => plain r isPlain (rest.append u)
  | call channel operation arguments inside ending rest, u =>
    call channel operation arguments inside ending (rest.append u)

theorem records_append (t u : Trace α) : (t.append u).records = t.records ++ u.records := by
  induction t with
  | finished => rfl
  | plain r isPlain rest ih => exact congrArg (r :: ·) ih
  | call channel operation arguments inside ending rest _ ih =>
    simp only [append, records, ih, List.append_assoc, List.cons_append]

end Trace

/-! ### Open calls -/

/-- The calls that are open after some records, the innermost first; a record that ends a call has to end the innermost. -/
def openCalls : List (Channel × String) → List (Record α) → Option (List (Channel × String))
  | calls, [] => some calls
  | calls, r :: rest =>
    match r.message with
    | .entering operation _ => openCalls ((r.channel, operation) :: calls) rest
    | .leaving operation _ | .failing operation =>
      if calls.head? = some (r.channel, operation) then openCalls calls.tail rest else none
    | _ => openCalls calls rest

theorem openCalls_plain {calls : List (Channel × String)} {r : Record α} (h : r.message.IsPlain)
    (rest : List (Record α)) : openCalls calls (r :: rest) = openCalls calls rest := by
  obtain ⟨level, channel, message⟩ := r
  cases message with
  | entering operation arguments => exact h.elim
  | leaving operation result => exact h.elim
  | failing operation => exact h.elim
  | _ => rfl

theorem openCalls_entering (calls : List (Channel × String)) (channel : Channel) (operation : String)
    (arguments : Call α) (rest : List (Record α)) :
    openCalls calls (⟨.debug, channel, .entering operation arguments⟩ :: rest) =
      openCalls ((channel, operation) :: calls) rest := rfl

theorem openCalls_ending (calls : List (Channel × String)) (channel : Channel) (operation : String)
    (ending : Ending α) (rest : List (Record α)) :
    openCalls ((channel, operation) :: calls) (⟨.debug, channel, ending.message operation⟩ :: rest) =
      openCalls calls rest := by
  cases ending with
  | returned result => exact if_pos rfl
  | raised => exact if_pos rfl

/-- Reading a trace opens and closes its own calls, whatever is open before and comes after. -/
theorem Trace.openCalls_records (t : Trace α) (calls : List (Channel × String)) (rest : List (Record α)) :
    openCalls calls (t.records ++ rest) = openCalls calls rest := by
  induction t generalizing calls rest with
  | finished => rfl
  | plain r isPlain later ih => exact (openCalls_plain isPlain _).trans (ih calls rest)
  | call channel operation arguments inside ending later ihinside ihlater =>
    simp only [records, List.cons_append, List.append_assoc]
    -- what is inside a call closes all its own calls, so the record that ends the call finds it innermost
    rw [openCalls_entering, ihinside, openCalls_ending, ihlater]

/-! ### What runs add to the journal -/

/-- `k` is `j` with more records. -/
structure Journal.Adds (rs : List (Record α)) (j k : Journal α) : Prop where
  threshold : k.threshold = j.threshold
  room : k.room = j.room
  records : k.records.toList = j.records.toList ++ rs

namespace Journal.Adds

variable {rs rs' : List (Record α)} {j k l : Journal α}

theorem refl (j : Journal α) : Adds [] j j := ⟨rfl, rfl, (List.append_nil _).symm⟩

theorem trans (h : Adds rs j k) (h' : Adds rs' k l) : Adds (rs ++ rs') j l :=
  ⟨h'.threshold.trans h.threshold, h'.room.trans h.room, by rw [h'.records, h.records, List.append_assoc]⟩

theorem admits (h : Adds rs j k) (channel : Channel) (level : Level) : k.admits channel level = j.admits channel level := by
  unfold Journal.admits
  rw [h.threshold]

theorem report {channel : Channel} {level : Level} (h : j.admits channel level) (message : Message α) :
    Adds [⟨level, channel, message⟩] j (j.report channel level message) := by
  unfold Journal.report
  rw [if_pos h]
  exact ⟨rfl, rfl, Array.toList_push ..⟩

theorem report_nothing {channel : Channel} {level : Level} (h : ¬j.admits channel level) (message : Message α) :
    Adds [] j (j.report channel level message) := by
  unfold Journal.report
  rw [if_neg h]
  exact refl j

end Journal.Adds

/-- The session with one more record, where the threshold admits it. -/
def Session.reported (st : Session α) (channel : Channel) (message : Message α) : Session α :=
  { st with journal := st.journal.report channel .debug message }

namespace Act

variable {β γ : Type} {p : Act α β} {f : β → Act α γ} {st : Session α}

theorem bind_of_ok {x : β} {st' : Session α} (h : p st = .ok x st') : (p >>= f) st = f x st' := by
  simp only [bind, EStateM.bind]
  rw [h]

/-- The session in which a call that is recorded does its work. -/
def entered (channel : Channel) (operation : String) (call : Assembly α → Call α) (st : Session α) : Session α :=
  st.reported channel (.entering operation (call st.assembly))

section Traced

variable [Scalar α] {channel : Channel} {operation : String} {call : Assembly α → Call α}
  {result : Assembly α → β → Option (Value α)}

/-- What a call shows in a session, and what it may answer, can be written. -/
structure Shows (call : Assembly α → Call α) (result : Assembly α → β → Option (Value α)) (st : Session α) : Prop where
  call : (call st.assembly).refusal? st.journal.room = none
  result : ∀ a b room, ((result a b).bind fun v => v.refusal? Value.shownItems room) = none

/-- An announced call does its work, and records the result -/
theorem announced_ok (hshows : Shows call result st) {b : β} {st' : Session α}
    (h : p (entered channel operation call st) = .ok b st') :
    announced channel operation call result p st =
      .ok b (st'.reported channel (.leaving operation (result st'.assembly b))) := by
  have houtcome : outcome p (entered channel operation call st) = .ok (.ok b) st' := by
    unfold outcome
    rw [h]
  have hresult := hshows.result st'.assembly b st'.journal.room
  exact (writing_bind_of_none hshows.call).trans ((bind_of_ok houtcome).trans (writing_bind_of_none hresult))

/-- or the failure. -/
theorem announced_error (hshows : Shows call result st) {e : Fault α} {st' : Session α}
    (h : p (entered channel operation call st) = .error e st') :
    announced channel operation call result p st = .error e (st'.reported channel (.failing operation)) := by
  have houtcome : outcome p (entered channel operation call st) = .ok (.error e) st' := by
    unfold outcome
    rw [h]
  exact (writing_bind_of_none hshows.call).trans (bind_of_ok houtcome)

theorem after_traced_hidden (h : ¬st.journal.admits channel .debug) :
    (traced channel operation call result p).after st = p.after st := by
  unfold after
  rw [traced_hidden h]

/-- A call that is recorded answers what its work answers, -/
theorem answer_traced_shown (h : st.journal.admits channel .debug) (hshows : Shows call result st) :
    (traced channel operation call result p).answer st = p.answer (entered channel operation call st) := by
  unfold answer
  rw [traced_shown h]
  cases hp : p (entered channel operation call st) with
  | ok b st' => rw [announced_ok hshows hp]
  | error e st' => rw [announced_error hshows hp]

/-- and leaves what its work leaves, with one more record: of its result, -/
theorem after_traced_returned (h : st.journal.admits channel .debug) (hshows : Shows call result st) {b : β}
    (hb : p.answer (entered channel operation call st) = .ok b) :
    (traced channel operation call result p).after st = (p.after (entered channel operation call st)).reported channel
      (.leaving operation (result (p.after (entered channel operation call st)).assembly b)) := by
  unfold answer at hb
  unfold after
  rw [traced_shown h]
  cases hp : p (entered channel operation call st) with
  | ok b' st' =>
    rw [hp] at hb
    cases hb
    rw [announced_ok hshows hp]
  | error e st' =>
    rw [hp] at hb
    cases hb

/-- or of its failure. -/
theorem after_traced_raised (h : st.journal.admits channel .debug) (hshows : Shows call result st) {e : Fault α}
    (he : p.answer (entered channel operation call st) = .error e) :
    (traced channel operation call result p).after st =
      (p.after (entered channel operation call st)).reported channel (.failing operation) := by
  unfold answer at he
  unfold after
  rw [traced_shown h]
  cases hp : p (entered channel operation call st) with
  | ok b st' =>
    rw [hp] at he
    cases he
  | error e' st' => rw [announced_error hshows hp]

end Traced

theorem after_bind_error {e : Fault α} (h : p.answer st = .error e) : (p >>= f).after st = p.after st := by
  unfold answer at h
  unfold after
  simp only [bind, EStateM.bind]
  cases hp : p st with
  | ok b st' => rw [hp] at h; cases h
  | error e' st' => rfl

theorem after_outcome : (outcome p).after st = p.after st := by
  unfold after outcome
  cases p st with
  | ok b st' => rfl
  | error e st' => rfl

/-! ### The trace of a run -/

/-- A call adds its first record, those of its work, and its last one. -/
theorem adds_call {channel : Channel} {operation : String} {call : Assembly α → Call α} {t : Trace α}
    {ending : Ending α} (seen : st.journal.admits channel .debug)
    (hinside : Journal.Adds t.records (entered channel operation call st).journal
      (p.after (entered channel operation call st)).journal) :
    Journal.Adds (Trace.call channel operation (call st.assembly) t ending .finished).records st.journal
      ((p.after (entered channel operation call st)).reported channel (ending.message operation)).journal := by
  have hentered := Journal.Adds.report seen (.entering operation (call st.assembly))
  have hwork := hentered.trans hinside
  -- the threshold is the same after the work, so the last record is admitted as the first was
  have hseen : (p.after (entered channel operation call st)).journal.admits channel .debug := by
    rw [hwork.admits]
    exact seen
  exact hwork.trans (.report hseen (ending.message operation))

section Telling

variable [Scalar α]

/-- The trace tells the run of an action in a session: its records in order, with a call for every traced part that is
recorded, which returned or raised as that part did. -/
inductive Tells : ∀ {β : Type}, Act α β → Session α → Trace α → Prop where
  | nothing {β : Type} {p : Act α β} {st : Session α} (silent : Journal.Adds [] st.journal (p.after st).journal) :
      Tells p st .finished
  | plain {channel : Channel} {level : Level} {message : Message α} {st : Session α} (isPlain : message.IsPlain)
      (admitted : st.journal.admits channel level) :
      Tells (report channel level message) st (.plain ⟨level, channel, message⟩ isPlain .finished)
  | bind {β γ : Type} {p : Act α β} {f : β → Act α γ} {st : Session α} {b : β} {t u : Trace α}
      (answered : p.answer st = .ok b) (first : Tells p st t) (next : Tells (f b) (p.after st) u) :
      Tells (p >>= f) st (t.append u)
  | stopped {β γ : Type} {p : Act α β} {f : β → Act α γ} {st : Session α} {e : Fault α} {t : Trace α}
      (failed : p.answer st = .error e) (first : Tells p st t) : Tells (p >>= f) st t
  | outcome {β : Type} {p : Act α β} {st : Session α} {t : Trace α} (whole : Tells p st t) : Tells (outcome p) st t
  | hidden {β : Type} {channel : Channel} {operation : String} {call : Assembly α → Call α}
      {result : Assembly α → β → Option (Value α)} {p : Act α β} {st : Session α} {t : Trace α}
      (unseen : ¬st.journal.admits channel .debug) (whole : Tells p st t) :
      Tells (traced channel operation call result p) st t
  | returned {β : Type} {channel : Channel} {operation : String} {call : Assembly α → Call α}
      {result : Assembly α → β → Option (Value α)} {p : Act α β} {st : Session α} {t : Trace α} {b : β}
      (seen : st.journal.admits channel .debug) (shows : Shows call result st)
      (answered : (traced channel operation call result p).answer st = .ok b)
      (inside : Tells p (entered channel operation call st) t) :
      Tells (traced channel operation call result p) st (.call channel operation (call st.assembly) t
        (.returned (result (p.after (entered channel operation call st)).assembly b)) .finished)
  | raised {β : Type} {channel : Channel} {operation : String} {call : Assembly α → Call α}
      {result : Assembly α → β → Option (Value α)} {p : Act α β} {st : Session α} {t : Trace α} {e : Fault α}
      (seen : st.journal.admits channel .debug) (shows : Shows call result st)
      (failed : (traced channel operation call result p).answer st = .error e)
      (inside : Tells p (entered channel operation call st) t) :
      Tells (traced channel operation call result p) st
        (.call channel operation (call st.assembly) t .raised .finished)

/-- A run adds the records of the trace that tells it, and nothing else. -/
theorem Tells.adds {t : Trace α} (h : Tells p st t) : Journal.Adds t.records st.journal (p.after st).journal := by
  induction h with
  | nothing silent => exact silent
  | plain isPlain admitted => exact .report admitted _
  | bind answered _ _ ihfirst ihnext =>
    rw [Trace.records_append, after_bind_ok answered]
    exact ihfirst.trans ihnext
  | stopped failed _ ih =>
    rw [after_bind_error failed]
    exact ih
  | outcome _ ih =>
    rw [after_outcome]
    exact ih
  | hidden unseen _ ih =>
    rw [after_traced_hidden unseen]
    exact ih
  | returned seen shows answered _ ih =>
    rw [answer_traced_shown seen shows] at answered
    rw [after_traced_returned seen shows answered]
    exact adds_call seen ih
  | raised seen shows failed _ ih =>
    rw [answer_traced_shown seen shows] at failed
    rw [after_traced_raised seen shows failed]
    exact adds_call seen ih

/-- A traced call that can be written is told by the trace of its work, inside its own two records if it is recorded. -/
theorem exists_tells_traced {channel : Channel} {operation : String} {call : Assembly α → Call α}
    {result : Assembly α → β → Option (Value α)} (hwork : ∀ st, ∃ t, Tells p st t) (hshows : Shows call result st) :
    ∃ t, Tells (traced channel operation call result p) st t := by
  by_cases hadmits : st.journal.admits channel .debug
  · obtain ⟨t, ht⟩ := hwork (entered channel operation call st)
    cases hanswer : (traced channel operation call result p).answer st with
    | ok b => exact ⟨_, .returned hadmits hshows hanswer ht⟩
    | error e => exact ⟨_, .raised hadmits hshows hanswer ht⟩
  · obtain ⟨t, ht⟩ := hwork st
    exact ⟨_, .hidden hadmits ht⟩

/-- Every run of an action that is put together is told by a trace. -/
theorem Composed.tells (h : Composed p) (st : Session α) : ∃ t, Tells p st t := by
  -- on how the action is put together; what comes next runs in the session that the first part leaves
  induction h generalizing st with
  | value b => exact ⟨_, .nothing (.refl _)⟩
  | fault e => exact ⟨_, .nothing (.refl _)⟩
  | assembly => exact ⟨_, .nothing (.refl _)⟩
  | change f => exact ⟨_, .nothing (.refl _)⟩
  | report channel level isPlain =>
    by_cases hadmits : st.journal.admits channel level
    · exact ⟨_, .plain isPlain hadmits⟩
    · exact ⟨_, .nothing (.report_nothing hadmits _)⟩
  | notice d => exact ⟨_, .nothing ⟨rfl, rfl, (List.append_nil _).symm⟩⟩
  | @bind β γ p f _ _ ihfirst ihnext =>
    obtain ⟨t, ht⟩ := ihfirst st
    cases hp : p.answer st with
    | ok b =>
      obtain ⟨u, hu⟩ := ihnext b (p.after st)
      exact ⟨_, .bind hp ht hu⟩
    | error e => exact ⟨_, .stopped hp ht⟩
  | outcome _ ih =>
    obtain ⟨t, ht⟩ := ih st
    exact ⟨_, .outcome ht⟩
  | traced channel operation call result writable _ ih =>
    exact exists_tells_traced ih ⟨writable.call st.assembly st.journal.room, writable.result⟩

/-- Every run of an operation is told by a trace; a call that is refused records nothing. -/
theorem Called.tells {refused : Nat → Option (Fault α)} (h : Called refused p) (st : Session α) :
    ∃ t, Tells p st t := by
  cases h with
  | composed whole never => exact whole.tells st
  | given operation call result whole shown answers =>
    cases hrefused : (call st.assembly).refusal? st.journal.room with
    | none => exact exists_tells_traced whole.tells ⟨hrefused, answers⟩
    | some fault =>
      by_cases hadmits : st.journal.admits .system .debug
      · refine ⟨.finished, .nothing ?_⟩
        unfold after
        rw [traced_of_refused ((refused?_shown hadmits).trans hrefused)]
        exact .refl _
      · obtain ⟨t, ht⟩ := whole.tells st
        exact ⟨t, .hidden hadmits ht⟩

end Telling

end Act

/-! ### Programs -/

variable [Scalar α]

/-- A program that calls operations, one after the other; which one is next may depend on all the answers so far and on
the objects as they are. -/
inductive Program (α : Type) [Scalar α] where
  | finished
  | call (op : Operation α) (next : Except (Fault α) op.act.1 → Assembly α → Program α)

/-- What a call answered: a value or a fault. -/
structure Answered (α : Type) [Scalar α] where
  op : Operation α
  answer : Except (Fault α) op.act.1

namespace Program

/-- What the calls of a program answer, and the session that it leaves. -/
def perform : Program α → Session α → List (Answered α) × Session α
  | finished, st => ([], st)
  | call op next, st =>
    let answer := op.act.2.answer st
    let rest := (next answer (op.after st).assembly).perform (op.after st)
    (⟨op, answer⟩ :: rest.1, rest.2)

/-- The operations that a program calls. -/
def calls (program : Program α) (st : Session α) : List (Operation α) := (program.perform st).1.map Answered.op

end Program

/-- An operation leaves thresholds and room as they are, so what a journal refuses once it always refuses. -/
theorem Operation.refused?_after (op next : Operation α) (st : Session α) :
    next.refused? (op.after st).journal = next.refused? st.journal := by
  obtain ⟨t, ht⟩ := op.called.tells st
  have hadds : Journal.Adds t.records st.journal (op.after st).journal := ht.adds
  unfold refused?
  rw [hadds.admits, hadds.room]

/-- Two journals refuse none of these operations. -/
def Taken (ops : List (Operation α)) (j j' : Journal α) : Prop := ∀ op ∈ ops, op.refused? j = none ∧ op.refused? j' = none

namespace Program

/-- As far as no call is refused, what is recorded has no part in what a program does. -/
theorem perform_journal (program : Program α) (a : Assembly α) (j j' : Journal α)
    (htaken : Taken (program.calls ⟨a, j⟩) j j') :
    (program.perform ⟨a, j⟩).1 = (program.perform ⟨a, j'⟩).1 ∧
      (program.perform ⟨a, j⟩).2.assembly = (program.perform ⟨a, j'⟩).2.assembly := by
  induction program generalizing a j j' with
  | finished => exact ⟨rfl, rfl⟩
  | call op next ih =>
    obtain ⟨⟨hj, hj'⟩, hlater⟩ := List.forall_mem_cons.mp htaken
    obtain ⟨hanswer, hassembly⟩ := Operation.same_answer (a := a) hj hj'
    have hsession : op.after ⟨a, j⟩ = ⟨(op.after ⟨a, j'⟩).assembly, (op.after ⟨a, j⟩).journal⟩ :=
      congrArg (Session.mk · (op.after ⟨a, j⟩).journal) hassembly
    have hrest := ih (op.act.2.answer ⟨a, j⟩) (op.after ⟨a, j⟩).assembly (op.after ⟨a, j⟩).assembly
      (op.after ⟨a, j⟩).journal (op.after ⟨a, j'⟩).journal fun later hmem => by
        rw [op.refused?_after later, op.refused?_after later]
        exact hlater later hmem
    unfold perform
    dsimp only
    rw [hanswer, hsession] at hrest ⊢
    exact ⟨congrArg (_ :: ·) hrest.1, hrest.2⟩

end Program

/-- What tracing does besides recording, and what it records. -/
structure TracingLaws (α : Type) [Scalar α] : Prop where
  /-- A call that would be recorded and cannot be written is refused: it fails for that reason, does nothing, and records
  nothing. -/
  refused : ∀ (op : Operation α) (st : Session α) (fault : Fault α), op.refused? st.journal = some fault →
    op.act.2.answer st = .error fault ∧ op.after st = st
  /-- No call is refused whose arguments have no integer of too many digits in them and no more layers of lists than there
  is room for. -/
  accepted : ∀ (op : Operation α) (j : Journal α), (∀ v ∈ op.given.args ++ op.given.named.map Prod.snd,
    v.isOverlong = false ∧ v.layers ≤ j.room + 1) → op.refused? j = none
  /-- A program none of whose calls is refused gets the same answers, faults among them, and leaves the same objects,
  whatever is recorded; -/
  transparent : ∀ (program : Program α) (a : Assembly α) (j j' : Journal α), Taken (program.calls ⟨a, j⟩) j j' →
    (program.perform ⟨a, j⟩).1 = (program.perform ⟨a, j'⟩).1 ∧
      (program.perform ⟨a, j⟩).2.assembly = (program.perform ⟨a, j'⟩).2.assembly
  /-- and every operation adds the records of a trace that tells its run, in which every call that begins is ended by one
  record, the innermost first. -/
  nested : ∀ (op : Operation α) (st : Session α), ∃ t : Trace α, Act.Tells op.act.2 st t ∧
    (op.after st).journal.records.toList = st.journal.records.toList ++ t.records ∧
    openCalls [] t.records = some []

theorem tracingLaws (α : Type) [Scalar α] : TracingLaws α where
  refused _ _ _ h := ⟨Operation.answer_of_refused h, Operation.after_of_refused h⟩
  accepted op j h := by
    unfold Operation.refused?
    split
    · refine List.findSome?_eq_none_iff.mpr fun v hv => ?_
      exact Value.refusal?_eq_none (h v hv).1 (h v hv).2
    · rfl
  transparent := Program.perform_journal
  nested op st := by
    obtain ⟨t, ht⟩ := op.called.tells st
    have hclosed := t.openCalls_records [] []
    rw [List.append_nil] at hclosed
    exact ⟨t, ht, ht.adds.records, hclosed⟩

/-- Two nodes in a system, in a session that records what has at least this level. -/
def twoNodes (threshold : Level) : Session Float :=
  run [.newSystem none, .node 0 0 0 {}, .node 0 1 0 {}] ⟨.empty .standard, .empty threshold⟩

/-- An integer of five thousand digits and one. -/
def tooLong : Int := Int.pow 10 5000

/-- A limit of five thousand digits is as good as any where nothing is traced, and a list that is given for a length is
refused for what it is, however deep.  Where calls are traced, both are refused because they cannot be written. -/
theorem tracing_intrudes :
    (∃ report, (Act.solve 0 (some tooLong)).answer (twoNodes .warning) = .ok report) ∧
      (Act.solve 0 (some tooLong)).answer (twoNodes .debug) = .error .integerTooLong ∧
      (Act.pair 0 0 1 { length := some (.unsupported (.nested 600) "list") }).answer (twoNodes .warning) =
        .error (.unsupportedTarget "list") ∧
      (Act.pair 0 0 1 { length := some (.unsupported (.nested 600) "list") }).answer (twoNodes .debug) =
        .error .nestedTooDeep := by
  have hadmits : (twoNodes .debug).journal.admits .system .debug := by decide +kernel
  have hroom : (twoNodes .debug).journal.room = 480 := by decide +kernel
  have hrefused {op : Operation Float} {fault : Fault Float} (h : op.refusal? 480 = some fault) :
      op.act.2.answer (twoNodes .debug) = .error fault := by
    refine Operation.answer_of_refused ?_
    unfold Operation.refused?
    rw [if_pos hadmits, hroom, h]
  have hlong : (Operation.solve 0 (some tooLong) : Operation Float).refusal? 480 = some .integerTooLong := by
    have hint := Value.refusal?_int_of_tooLong (α := Float) (by decide +kernel : Text.isTooLong tooLong = true)
    unfold Operation.refusal? Operation.given Call.refusal?
    simp only [Option.map_some, Option.toList_some, List.map_nil, List.append_nil, List.findSome?_cons, hint]
  have hdeep : (Operation.pair 0 0 1 { length := some (.unsupported (.nested 600) "list") } : Operation Float).refusal? 480 =
      some .nestedTooDeep := by
    have hlist := Value.refusal?_nested (α := Float) (by decide : 0 < Value.shownItems) (by decide : 480 + 1 < 600)
    unfold Operation.refusal? Operation.given Call.refusal?
    simp [PairOptions.named, Spec.value, hlist]
  -- for any limit and any list, so that neither of them is computed
  have hsolve {n : Int} (h : (Operation.solve 0 (some n) : Operation Float).refusal? 480 = some .integerTooLong) :
      (Act.solve 0 (some n)).answer (twoNodes .debug) = .error .integerTooLong := hrefused h
  have hpair {v : Value Float} (h : (Operation.pair 0 0 1 { length := some (.unsupported v "list") } :
      Operation Float).refusal? 480 = some .nestedTooDeep) : (Act.pair 0 0 1 { length := some (.unsupported v "list") }).answer
        (twoNodes .debug) = .error .nestedTooDeep := hrefused h
  have hquiet (v : Value Float) : (Act.pair 0 0 1 { length := some (.unsupported v "list") }).answer (twoNodes .warning) =
      .error (.unsupportedTarget "list") := rfl
  refine ⟨?_, hsolve hlong, hquiet _, hpair hdeep⟩
  obtain ⟨report, hreport⟩ := Option.isSome_iff_exists.mp
    (show ((Act.solve 0 (some tooLong)).answer (twoNodes .warning)).toOption.isSome = true by decide +kernel)
  exact ⟨report, Act.eq_ok_of_toOption hreport⟩

end Linkage
