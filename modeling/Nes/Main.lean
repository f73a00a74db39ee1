import Nes.Cli.Run

/-!
# The program

It reads the file that the arguments name, and prints the outcome of the run.
-/

namespace Nes.Cli

/-- Why a file cannot be read: the system's words and number for it. -/
def reason : IO.Error → String
  | .inappropriateType _ code details | .permissionDenied _ code details =>
    details.capitalize ++ " (os error " ++ toString (min code (0 - code)) ++ ")"
  | cause => toString cause

/-- What a path leads to. -/
def readFile (path : String) : IO FileContents := do
  try
    return .bytes (← IO.FS.readBinFile path).data
  catch
    | .noFileOrDirectory .. => return .missing
    | cause => return .unreadable (reason cause)

/-- Print an outcome and give its exit code. -/
def report (outcome : Outcome) : IO UInt32 := do
  for line in outcome.output do IO.println line
  for line in outcome.log do IO.eprint line.render
  return outcome.exitCode.toUInt32

end Nes.Cli

open Nes.Cli in
/-- Run a cartridge from the command line. The file is read only if the arguments ask for a run. -/
def main (args : List String) : IO UInt32 := do
  let file ← match read args with
    | .run options => readFile options.rom
    | .help | .misused => pure .missing
  report (execute args fun _ => file)
