import Linkage.CommandLine.Run

/-!
# Linkage.Main — the program
-/

open Linkage.CommandLine in
/-- Prints what a run leaves: its lines, its records on the error stream, and its end. -/
def main (words : List String) : IO UInt32 := do
  let outcome := run true words
  for line in outcome.lines do
    IO.println line.text
  for record in outcome.records do
    IO.eprintln (recordText record)
  match outcome.ending with
  | .usage =>
    for line in usage do
      IO.println line
    return 0
  | .refused refusal =>
    IO.eprintln s!"linkage: error: {refusal.message}"
    return 2
  | .failed fault =>
    IO.eprintln fault.message
    return 1
  | .exit code => return code.toUInt32
