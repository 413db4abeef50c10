import Linkage.Assembly
import Linkage.Journal

/-!
# Linkage.Session — actions on an assembly that report what they do

An action runs on an assembly and a journal and may fail; what it changed and reported before it failed stays.  A
traced action reports its call and its outcome at the lowest level.  What it reports is written there and then, and what
cannot be written makes it fail: a call before its work, a result after it.
-/

namespace Linkage

/-- The objects of a session and what it has reported. -/
structure Session (α : Type) where
  assembly : Assembly α
  journal : Journal α

/-- Something done in a session, which may fail and keeps the session it leaves. -/
abbrev Act (α β : Type) := EStateM (Fault α) (Session α) β

namespace Act

variable {α β : Type}

def assembly : Act α (Assembly α) := return (← get).assembly

/-- Changes the assembly. -/
def change (f : Assembly α → Assembly α) : Act α Unit :=
  modify fun s => { s with assembly := f s.assembly }

/-- Reports a message where the threshold of its channel admits it. -/
def report (channel : Channel) (level : Level) (message : Message α) : Act α Unit :=
  modify fun s => { s with journal := s.journal.report channel level message }

def notice (d : Deprecation) : Act α Unit :=
  modify fun s => { s with journal := s.journal.notice d }

/-- A computation that needs no session. -/
def ofExcept : Except (Fault α) β → Act α β
  | .ok b => pure b
  | .error e => throw e

/-- Runs an action and goes on with what it leaves, whether it fails or not. -/
def outcome (act : Act α β) : Act α (Except (Fault α) β) := fun s =>
  match act s with
  | .ok b s => .ok (.ok b) s
  | .error e s => .ok (.error e) s

/-- Goes on unless something cannot be written in the room that the journal has. -/
def writing (refusal? : (room : Nat) → Option (Fault α)) : Act α Unit := do
  match refusal? (← get).journal.room with
  | some fault => throw fault
  | none => return ()

variable [Scalar α]

/-- Reports the call of an operation before it and its end or failure after it. -/
def announced (channel : Channel) (operation : String) (call : Assembly α → Call α)
    (result : Assembly α → β → Option (Value α)) (act : Act α β) : Act α β := do
  let arguments := call (← assembly)
  writing arguments.refusal?
  report channel .debug (.entering operation arguments)
  match ← outcome act with
  | .ok b =>
    let shown := result (← assembly) b
    writing fun room => shown.bind fun v => v.refusal? Value.shownItems room
    report channel .debug (.leaving operation shown)
    return b
  | .error e =>
    report channel .debug (.failing operation)
    throw e

/-- An operation that is announced if the channel admits tracing. -/
def traced (channel : Channel) (operation : String) (call : Assembly α → Call α)
    (result : Assembly α → β → Option (Value α)) (act : Act α β) : Act α β := do
  if (← get).journal.admits channel .debug then announced channel operation call result act else act

end Act

end Linkage
