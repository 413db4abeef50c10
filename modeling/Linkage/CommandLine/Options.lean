import Linkage.Text.Numeral
import Linkage.Text.Quoted

/-!
# Linkage.CommandLine.Options — reading the command line

Options are long words that may be shortened to any beginning no other option has, and take their argument from the
next word or from the same word after an equals sign.  A later option overrides an earlier one.  A word is an argument
unless it looks like an option; negative numbers do not, and after a double dash nothing does.
-/

namespace Linkage.CommandLine

open Text (quoted)

/-- The mechanisms to choose from. -/
inductive Choice where
  | fourBar
  | sliderCrank
deriving DecidableEq

def Choice.name : Choice → String
  | .fourBar => "four-bar"
  | .sliderCrank => "slider-crank"

/-- The options, with what they were given or stand at. -/
structure Options where
  mechanism : Choice := .fourBar
  steps : Int := 36
  sweeps : Option Int := none
  tolerance : Option Float := none
  json : Bool := false
  level : String := "WARNING"

/-- The kinds of option. -/
inductive Flag where
  | help
  | mechanism
  | steps
  | sweeps
  | tolerance
  | json
  | level
deriving DecidableEq

namespace Flag

/-- Every spelling of an option, in the order in which they are searched. -/
def spellings : List (String × Flag) :=
  [("-h", .help), ("--help", .help), ("--mechanism", .mechanism), ("--steps", .steps), ("--itrmax", .sweeps),
    ("--lentol", .tolerance), ("--json", .json), ("--log-level", .level)]

/-- The spellings of one option together, as refusals name it. -/
def name (f : Flag) : String := "/".intercalate ((spellings.filter fun s => s.2 == f).map Prod.fst)

/-- Whether an option takes an argument. -/
def takesArgument : Flag → Bool
  | .help | .json => false
  | _ => true

end Flag

/-- Why a command line is refused. -/
inductive Refusal where
  | ambiguous (word : String) (candidates : List String)
  | missingArgument (flag : Flag)
  | needlessArgument (flag : Flag) (argument : String)
  | invalidInteger (flag : Flag) (argument : String)
  | invalidNumber (flag : Flag) (argument : String)
  | invalidChoice (flag : Flag) (argument : String)
  | unrecognized (words : List String)

def Refusal.message : Refusal → String
  | .ambiguous word candidates => "ambiguous option: " ++ word ++ " could match " ++ ", ".intercalate candidates
  | .missingArgument flag => "argument " ++ flag.name ++ ": expected one argument"
  | .needlessArgument flag argument =>
    "argument " ++ flag.name ++ ": ignored explicit argument " ++ quoted argument
  | .invalidInteger flag argument => "argument " ++ flag.name ++ ": invalid int value: " ++ quoted argument
  | .invalidNumber flag argument => "argument " ++ flag.name ++ ": invalid float value: " ++ quoted argument
  | .invalidChoice flag argument =>
    "argument " ++ flag.name ++ ": invalid choice: " ++ quoted argument ++ " (choose from "
      ++ ", ".intercalate ([Choice.fourBar, .sliderCrank].map fun c => quoted c.name) ++ ")"
  | .unrecognized words => "unrecognized arguments: " ++ " ".intercalate words

/-! ### Words -/

/-- What a word of the command line is. -/
inductive Word where
  | argument (text : String)
  | separator
  | unknown (text : String)
  | option (flag : Flag) (joined : Option String)
  /-- A one-letter option with more behind it, which may be letters of further options. -/
  | cluster (flag : Flag) (more : String)

/-- Whether a word is a negative number: a minus and digits, with at most one point before the last of them. -/
def isNegativeNumber (word : String) : Bool :=
  match word.toList with
  | '-' :: rest =>
    let rest := match rest.reverse with
      | '\n' :: front => front.reverse
      | _ => rest
    let isDigit := fun c => (Text.digitValue? c).isSome
    let fraction := rest.dropWhile isDigit
    match fraction with
    | [] => !rest.isEmpty
    | '.' :: digits => !digits.isEmpty && digits.all isDigit
    | _ => false
  | _ => false

/-- The part of a word before its first equals sign, and the part behind it if there is one. -/
def splitJoined (word : String) : String × Option String :=
  match word.toList.span (· != '=') with
  | (front, _ :: back) => (String.ofList front, some (String.ofList back))
  | (front, []) => (String.ofList front, none)

/-- The word as it stands when it matches no option. -/
def otherWord (word : String) : Word :=
  if isNegativeNumber word || word.contains ' ' then .argument word else .unknown word

/-- What a word is that stands before any separator. -/
def classify (word : String) : Except Refusal Word :=
  if !word.startsWith "-" || word = "-" then .ok (.argument word)
  else
    let (front, joined) := splitJoined word
    match Flag.spellings.lookup word with
    | some flag => .ok (.option flag none)
    | none =>
      match Flag.spellings.lookup front with
      | some flag =>
        match joined with
        | some more => .ok (if front.length = 2 && !more.isEmpty then .cluster flag more else .option flag joined)
        | none => .ok (.option flag none)
      | none =>
        if word.startsWith "--" then
          match Flag.spellings.filter fun s => s.1.startsWith front with
          | [] => .ok (otherWord word)
          | [(_, flag)] => .ok (.option flag joined)
          | several => .error (.ambiguous word (several.map Prod.fst))
        else
          match Flag.spellings.lookup (String.ofList (word.toList.take 2)) with
          | some flag => .ok (.cluster flag (String.ofList (word.toList.drop 2)))
          | none => .ok (otherWord word)

/-- What every word is. -/
def classifyAll : List String → Except Refusal (List Word)
  | [] => .ok []
  | word :: rest =>
    if word = "--" then .ok (.separator :: rest.map .argument)
    else return (← classify word) :: (← classifyAll rest)

/-! ### Options -/

/-- What a command line asks for. -/
inductive Request where
  | help
  | run (options : Options)

/-- The options after one with its argument. -/
def Options.assign (o : Options) (flag : Flag) (argument : String) : Except Refusal Options :=
  match flag with
  | .mechanism =>
    match [Choice.fourBar, .sliderCrank].find? fun c => c.name == argument with
    | some choice => .ok { o with mechanism := choice }
    | none => .error (.invalidChoice flag argument)
  | .steps =>
    match Text.integer? argument with
    | some n => .ok { o with steps := n }
    | none => .error (.invalidInteger flag argument)
  | .sweeps =>
    match Text.integer? argument with
    | some n => .ok { o with sweeps := some n }
    | none => .error (.invalidInteger flag argument)
  | .tolerance =>
    match Text.real? argument with
    | some x => .ok { o with tolerance := some x }
    | none => .error (.invalidNumber flag argument)
  | .level => .ok { o with level := argument }
  | .json => .ok { o with json := true }
  | .help => .ok o

/-- What may stand behind a one-letter option that takes no argument: its letter again, as often as it likes. -/
def checkCluster (flag : Flag) (more : String) : Except Refusal Unit :=
  match more.toList.dropWhile (· == 'h') with
  | [] => .ok ()
  | rest => .error (.needlessArgument flag (String.ofList rest))

/-- Goes through the words in order and collects those that nobody knows. -/
def collect (o : Options) (unknown : List String) : List Word → Except Refusal Request
  | [] => if unknown.isEmpty then .ok (.run o) else .error (.unrecognized unknown)
  | .argument text :: rest => collect o (unknown ++ [text]) rest
  | .separator :: rest => collect o (unknown ++ ["--"]) rest
  | .unknown text :: rest => collect o (unknown ++ [text]) rest
  | .cluster flag more :: _ => do
    checkCluster flag more
    return .help
  | .option flag (some joined) :: rest =>
    if flag.takesArgument then do collect (← o.assign flag joined) unknown rest
    else .error (.needlessArgument flag joined)
  | .option .help none :: _ => .ok .help
  | .option .json none :: rest => collect { o with json := true } unknown rest
  | .option flag none :: .argument text :: rest => do collect (← o.assign flag text) unknown rest
  | .option flag none :: _ => .error (.missingArgument flag)

/-- Reads a command line. -/
def parse (words : List String) : Except Refusal Request := do
  collect {} [] (← classifyAll words)

end Linkage.CommandLine
