import Linkage.CommandLine.Options
import Linkage.Config.Creation
import Linkage.Config.Standard
import Linkage.Fault.Text
import Linkage.Journal.Text
import Linkage.Mechanism.Sweep

/-!
# Linkage.CommandLine.Run — driving a mechanism through one turn

The chosen mechanism is built and swept through one revolution.  Every step is one line of output, in a table with a
header or as an object on its own; the exit code tells whether every step converged.
-/

namespace Linkage.CommandLine

open Mechanism (Step FourBar SliderCrank)

/-- A line of output. -/
inductive Line where
  | header (joints : List String)
  | row (item : Step Float)
  | object (item : Step Float)

/-- How a run ends. -/
inductive Ending where
  | usage
  | refused (r : Refusal)
  | failed (f : Fault Float)
  | exit (code : Nat)

/-- Everything a run leaves: its lines, its records and its end. -/
structure Outcome where
  lines : List Line
  records : Array (Record Float)
  ending : Ending

/-! ### Levels -/

/-- Upper case of the letters that level names are made of; the dotless i and the long s have it too. -/
def upper (c : Char) : Char := if c = 'ı' then 'I' else if c = 'ſ' then 'S' else c.toUpper

/-- The level that a word names in any case; an unknown word stands for `INFO`, and one that names a text and no level is
refused. -/
def level? (word : String) : Except (Fault Float) Level :=
  match String.ofList (word.toList.map upper) with
  | "CRITICAL" | "FATAL" => .ok Level.critical
  | "ERROR" => .ok Level.error
  | "WARNING" | "WARN" => .ok Level.warning
  | "DEBUG" => .ok Level.debug
  | "NOTSET" => .ok 0
  | "BASIC_FORMAT" => .error (.unknownLevel "%(levelname)s:%(name)s:%(message)s")
  | _ => .ok Level.info

/-! ### Building -/

/-- The default lengths of the four-bar linkage. -/
def fourBarLengths : FourBar Float := ⟨40, 10, 40, 30⟩

/-- The default lengths of the slider-crank. -/
def sliderCrankLengths : SliderCrank Float := ⟨10, 30⟩

def Choice.build : Choice → Act Float Mechanism
  | .fourBar => Mechanism.fourBar fourBarLengths
  | .sliderCrank => Mechanism.sliderCrank sliderCrankLengths

/-- Gives a system a configuration of its own with the numbers given, if any are. -/
def configure (s : SystemId) (o : Options) : Act Float Unit := do
  if o.sweeps.isSome || o.tolerance.isSome then
    let a ← Act.assembly
    let current := a.config (a.system s).config
    let sweeps := (o.sweeps.map Numeral.int).getD current.sweeps
    let cfg ← Act.ofExcept (Config.create sweeps (.float (o.tolerance.getD current.tolerance)) (.float current.reach))
    Act.useConfig s (← Act.newConfig cfg)

/-- Builds the mechanism and announces the run. -/
def begin (program : Bool) (o : Options) : Act Float Mechanism := do
  let m ← o.mechanism.build
  configure m.system o
  Act.report (.commandLine program) .info (.running m.name o.steps)
  return m

/-! ### Running -/

/-- Sweeps a mechanism and reports how many steps did not converge. -/
def drive (program : Bool) (o : Options) (m : Mechanism) (s : Session Float) : Outcome :=
  let header := if o.json then [] else [Line.header (m.joints.map Prod.fst)]
  let (steps, s) := m.sweep o.steps 1 s
  let lines := header ++ steps.items.map (if o.json then .object else .row)
  match steps.failure with
  | some fault => ⟨lines, s.journal.records, .failed fault⟩
  | none =>
    let failures := steps.items.countP (·.iterations == 0)
    if failures = 0 then ⟨lines, s.journal.records, .exit 0⟩
    else
      let journal := s.journal.report (.commandLine program) .warning (.stepsFailed failures o.steps)
      ⟨lines, journal.records, .exit 1⟩

/-- Runs with the options given. -/
def runWith (program : Bool) (o : Options) : Outcome :=
  match level? o.level with
  | .error fault => ⟨[], #[], .failed fault⟩
  | .ok level =>
    match begin program o ⟨.empty .standard, .empty level⟩ with
    | .error fault s => ⟨[], s.journal.records, .failed fault⟩
    | .ok m s => drive program o m s

/-- Runs a command line; `program` tells whether it is the program itself and not a library that calls it. -/
def run (program : Bool) (words : List String) : Outcome :=
  match parse words with
  | .error refusal => ⟨[], #[], .refused refusal⟩
  | .ok .help => ⟨[], #[], .usage⟩
  | .ok (.run o) => runWith program o

/-! ### Text -/

/-- Width of a column. -/
def columnWidth : Nat := 9

/-- Columns side by side. -/
def columns (texts : List String) : String := " ".intercalate (texts.map (Text.padLeft columnWidth))

/-- A number in an object: the shortest text, with words for what is no finite number. -/
def objectNumber (x : Float) : String :=
  if x.isNaN then "NaN" else if x.isInf then (if x < 0 then "-Infinity" else "Infinity") else Number.shortest x

/-- A joint in an object: its name and the list of its coordinates. -/
def objectJoint (joint : String × Vec Float) : String :=
  "\"" ++ joint.1 ++ "\": " ++ Text.enclosed "[" "]" [objectNumber joint.2.x, objectNumber joint.2.y]

def Line.text : Line → String
  | .header joints =>
    columns (["step", "phi[deg]", "itr"] ++ joints.map (· ++ ".x") ++ joints.map (· ++ ".y"))
  | .row item =>
    columns ([toString item.step, Number.fixed 2 (Scalar.degrees item.phi), toString item.iterations]
      ++ item.coords.map (fun joint => Number.fixed 3 joint.2.x)
      ++ item.coords.map (fun joint => Number.fixed 3 joint.2.y))
  | .object item =>
    Text.enclosed "\x7b" "\x7d" ["\"step\": " ++ toString item.step, "\"phi\": " ++ objectNumber item.phi,
      "\"iterations\": " ++ toString item.iterations,
      "\"coords\": " ++ Text.enclosed "\x7b" "\x7d" (item.coords.map objectJoint)]

/-- A record as a line of the log. -/
def recordText (r : Record Float) : String := r.level.name ++ ":" ++ r.channel.name ++ ":" ++ r.message.text

/-- How the program is called. -/
def usage : List String :=
  ["usage: linkage [-h] [--mechanism \x7bfour-bar,slider-crank\x7d] [--steps STEPS] [--itrmax ITRMAX]",
    "               [--lentol LENTOL] [--json] [--log-level LOG_LEVEL]",
    "",
    "Drive a demo mechanism through one crank revolution",
    "",
    "options:",
    "  -h, --help            show this help message and exit",
    "  --mechanism \x7bfour-bar,slider-crank\x7d",
    "                        Mechanism to simulate (default: four-bar)",
    "  --steps STEPS         Number of crank steps per revolution (default: 36)",
    "  --itrmax ITRMAX       Maximum relaxation sweeps per step",
    "  --lentol LENTOL       Length tolerance used by the convergence checks",
    "  --json                Emit one JSON object per step instead of a table",
    "  --log-level LOG_LEVEL",
    "                        Logging level (default: WARNING)"]

end Linkage.CommandLine
