import Linkage.Value.Writing

/-!
# Linkage.Journal — what a run reports

Messages are kept as data, each on a channel and at a level; a record is made only where the channel's threshold
admits its level.  Notices of deprecated operations are kept apart and always.
-/

namespace Linkage

/-- How important a message is. -/
abbrev Level := Int

namespace Level

def debug : Level := 10
def info : Level := 20
def warning : Level := 30
def error : Level := 40
def critical : Level := 50

end Level

/-- Who reports. -/
inductive Channel where
  | solver
  | system
  | combinators
  | mechanisms
  /-- The command line, as a library module or as the program itself. -/
  | commandLine (program : Bool)
  | other (name : String)
deriving DecidableEq

/-- The state of a constraint in numbers; angles are in degrees. -/
inductive Description (α : Type) where
  | pair (id : Option String) (inverseMass1 inverseMass2 share1 share2 length angle : α)
      (lengthGap angleGap : Option α) (direction : Int)
  | triple (id : Option String) (inverseMass1 inverseMass2 inverseMass3 angle : α)
      (target : Option (α × α))

/-- Arguments of a traced call. -/
structure Call (α : Type) where
  args : List (Value α) := []
  named : List (String × Value α) := []

/-- Why the arguments of a call cannot be written, where there is room for so many layers of lists inside each. -/
def Call.refusal? {α : Type} [Scalar α] (c : Call α) (room : Nat) : Option (Fault α) :=
  (c.args ++ c.named.map Prod.snd).findSome? fun v => v.refusal? Value.shownItems room

/-- What a record says. -/
inductive Message (α : Type) where
  | entering (operation : String) (call : Call α)
  | leaving (operation : String) (result : Option (Value α))
  | failing (operation : String)
  | registered (c : Sketch α) (count : Nat)
  | resolved (ref : String) (owner : Option String)
  | notFinite (sweep : Nat)
  | converged (sweeps : Nat)
  | restored (sweeps constraints : Nat)
  | description (d : Description α)
  | solving (nodes constraints : Nat) (freedom : Int)
  | solved (r : Report α)
  | builtFourBar (freedom : Int)
  | builtSliderCrank (freedom : Int)
  | stepFailed (mechanism : String) (step : Int) (phi : α)
  | running (mechanism : String) (steps : Int)
  | stepsFailed (failures : Nat) (steps : Int)

/-- A message on a channel at a level. -/
structure Record (α : Type) where
  level : Level
  channel : Channel
  message : Message α

/-- An operation that should no longer be used. -/
inductive Deprecation where
  | triple
  | include
  | inclRange
deriving DecidableEq

/-- The records and notices of a run, with the threshold of every channel. -/
structure Journal (α : Type) where
  threshold : Channel → Level
  /-- How many layers of lists can be written inside a list. -/
  room : Nat
  records : Array (Record α)
  notices : Array Deprecation

namespace Journal

variable {α : Type}

/-- The room for layers of lists unless something is written from far inside other calls: each layer takes two of a
thousand calls, and some are open already. -/
def usualRoom : Nat := 480

/-- An empty journal with one threshold for all channels. -/
def empty (threshold : Level) : Journal α := ⟨fun _ => threshold, usualRoom, #[], #[]⟩

def admits (j : Journal α) (channel : Channel) (level : Level) : Bool := j.threshold channel ≤ level

/-- Adds a record where the threshold admits it. -/
def report (j : Journal α) (channel : Channel) (level : Level) (message : Message α) : Journal α :=
  if j.admits channel level then { j with records := j.records.push ⟨level, channel, message⟩ } else j

def notice (j : Journal α) (d : Deprecation) : Journal α := { j with notices := j.notices.push d }

end Journal

end Linkage
