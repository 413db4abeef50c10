import Linkage.Session

/-!
# Linkage.System.Settings — configurations and who shares them

A system that is given a configuration shares it: a change of one of its fields is seen by every system that holds it.
The ambient configuration is only ever copied, into a new object for whoever asks for it and from the object that is
set in its place.
-/

namespace Linkage.Act

variable {α : Type} [Scalar α]

/-- Makes a configuration object. -/
def newConfig (cfg : Config α) : Act α ConfigId := do
  let k := (← assembly).configs.size
  change fun a => { a with configs := a.configs.push cfg }
  return k

/-- A new object with the values of the ambient configuration. -/
def copyAmbient : Act α ConfigId := do newConfig (← assembly).ambient

/-- Gives the ambient configuration the values that an object has now. -/
def setAmbient (k : ConfigId) : Act α Unit := change fun a => { a with ambient := a.config k }

/-- Changes fields of a configuration object, unchecked. -/
def modifyConfig (k : ConfigId) (f : Config α → Config α) : Act α Unit :=
  change fun a => a.setConfig k (f (a.config k))

/-- Makes a system that shares the configuration given, or has a copy of the ambient one. -/
def newSystem (config : Option ConfigId) : Act α SystemId := do
  let k ← match config with
    | some k => pure k
    | none => copyAmbient
  let s := (← assembly).systems.size
  change fun a => { a with systems := a.systems.push ⟨k, [], [], []⟩ }
  return s

/-- Makes a system share another configuration. -/
def useConfig (s : SystemId) (k : ConfigId) : Act α Unit :=
  change fun a => a.setSystem s { a.system s with config := k }

end Linkage.Act
