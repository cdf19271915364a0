import Descent.Command

/-! The command line program: files, standard streams and the environment. -/
namespace Descent.Main

/-- The text of a file, if there is a file that holds text. -/
def readFile (path : String) : IO (Option String) := do
  try return some (← IO.FS.readFile path) catch _ => return none

/-- All of standard input, if it is text. -/
def readInput : IO (Option String) := do
  try return some (← (← IO.getStdin).readToEnd) catch _ => return none

/-- The lines that tell of a failure. The cause is an indented block. -/
def complaint (f : Command.Failure) : List String :=
  match f.cause with
  | .none | .foreign => [f.message]
  | .known cause => [f.message, "", "Caused by:", "    " ++ Command.hanging cause]

end Descent.Main

open Descent in
def main (arguments : List String) : IO UInt32 := do
  let threshold := Threshold.ofSetting (← IO.getEnv "RUST_LOG")
  let report ← Command.run Main.readFile Main.readInput arguments
  for e in report.events do
    if threshold.admits e then IO.eprintln e.line
  IO.print report.output
  for f in report.failure? do
    for line in Main.complaint f do
      IO.eprintln line
  return UInt32.ofNat report.exitCode
