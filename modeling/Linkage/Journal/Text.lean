import Linkage.Journal
import Linkage.Value.Text

/-!
# Linkage.Journal.Text — the texts of messages

Each message has one text; a channel and a level have names under which a record is shown.
-/

namespace Linkage

open Text (quoted quotedOrNone)

def Channel.name : Channel → String
  | .solver => "nodelink.solver"
  | .system => "nodelink.solver.system"
  | .combinators => "nodelink.solver.combinators"
  | .mechanisms => "nodelink.mechanisms"
  | .commandLine program => if program then "__main__" else "nodelink.__main__"
  | .other name => name

def Level.name (level : Level) : String :=
  if level = Level.critical then "CRITICAL"
  else if level = Level.error then "ERROR"
  else if level = Level.warning then "WARNING"
  else if level = Level.info then "INFO"
  else if level = Level.debug then "DEBUG"
  else if level = 0 then "NOTSET"
  else "Level " ++ toString level

namespace Description

variable {α : Type}

/-- A number under a key, if there is one. -/
def entry (key : String) (x : Option α) : List (String × Value α) := (x.map fun x => (key, Value.float x)).toList

/-- The entries of a description under their short keys; a direction is listed only if the pair has one. -/
def entries : Description α → List (String × Value α)
  | .pair id inverse₁ inverse₂ share₁ share₂ length angle lengthGap angleGap direction =>
    [("id", .optionalText id), ("kind", .text "pair"), ("im1", .float inverse₁), ("im2", .float inverse₂),
      ("mc_m1", .float share₁), ("mc_m2", .float share₂), ("r", .float length), ("w", .float angle)]
      ++ entry "dr" lengthGap ++ entry "dw" angleGap
      ++ (if direction = 0 then [] else [("dir", .int direction)])
  | .triple id inverse₁ inverse₂ inverse₃ angle target =>
    [("id", .optionalText id), ("kind", .text "triple"), ("im1", .float inverse₁), ("im2", .float inverse₂),
      ("im3", .float inverse₃), ("w", .float angle)]
      ++ entry "ang" (target.map Prod.fst) ++ entry "dw" (target.map Prod.snd)

/-- The text of an entry; identifiers are never shortened. -/
def entryText : String × Value Float → String
  | (key, .text s) => quoted key ++ ": " ++ quoted s
  | (key, v) => quoted key ++ ": " ++ v.shown

/-- The text of a description. -/
def text (d : Description Float) : String := Text.enclosed "\x7b" "\x7d" (d.entries.map entryText)

end Description

/-- The text of a message. -/
def Message.text : Message Float → String
  | .entering operation call => "Entering " ++ operation ++ " (" ++ call.text ++ ")"
  | .leaving operation (some result) => "Exiting " ++ operation ++ " -> " ++ result.shown
  | .leaving operation none => "Exiting " ++ operation
  | .failing operation => "Exception in " ++ operation
  | .registered c count => "Registered " ++ c.full ++ " (" ++ toString count ++ " constraints)"
  | .resolved ref owner => "Resolved reference " ++ quoted ref ++ " for constraint " ++ quotedOrNone owner
  | .notFinite sweep => "Non-finite node position after sweep " ++ toString sweep ++ "; rolling back"
  | .converged sweeps => "Converged after " ++ toString sweeps ++ " sweep(s)"
  | .restored sweeps constraints =>
    "No convergence after " ++ toString sweeps ++ " sweep(s) over " ++ toString constraints
      ++ " constraints; positions restored"
  | .description d => d.text
  | .solving nodes constraints freedom =>
    "Solving system with " ++ toString nodes ++ " nodes and " ++ toString constraints ++ " constraints (dof="
      ++ toString freedom ++ ")"
  | .solved r =>
    "Solve finished converged=" ++ Text.truth r.converged ++ " iterations=" ++ toString r.iterations
      ++ " max_residual=" ++ Number.general 3 r.maxResidual
  | .builtFourBar freedom => "Built four-bar linkage with dof=" ++ toString freedom
  | .builtSliderCrank freedom => "Built slider-crank with dof=" ++ toString freedom
  | .stepFailed mechanism step phi =>
    mechanism ++ ": step " ++ toString step ++ " (phi=" ++ Number.fixed 3 phi ++ ") did not converge"
  | .running mechanism steps => "Running " ++ mechanism ++ " for " ++ toString steps ++ " steps"
  | .stepsFailed failures steps => toString failures ++ " of " ++ toString steps ++ " steps did not converge"

def Deprecation.text : Deprecation → String
  | .triple => "TripleConstraint is deprecated; use two PairConstraint angle targets instead"
  | .include => "angle.include is deprecated; use angle.from_"
  | .inclRange => "angle.incl_range is deprecated; use angle.range_from"

end Linkage
