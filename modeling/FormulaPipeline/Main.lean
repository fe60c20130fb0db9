import FormulaPipeline.CommandLine
import Std.Time

/-!
# The program

Reads what a command may look at, runs it and prints its response.
-/

open FormulaPipeline

/-- The text of a file, if it can be read. -/
def readFile? (path : String) : IO (Option String) :=
  try
    return some (← IO.FS.readFile path)
  catch _ => return none

/-- The standard input, unless it is a terminal. -/
def readInput : IO String := do
  let input ← IO.getStdin
  if ← input.isTty then return "" else input.readToEnd

def main (args : List String) : IO UInt32 := do
  let file ← match CommandLine.filePath? args with
    | some path => readFile? path
    | none => pure none
  let input ← if CommandLine.readsInput args then readInput else pure ""
  let time ← Std.Time.Timestamp.now
  let now := (DateTime.ofEpochMillis? time.toMillisecondsSinceUnixEpoch.val).getD DateTime.epoch
  let response := CommandLine.respond ⟨input, fun _ => file, now⟩ args
  IO.print response.stdout
  IO.eprint response.stderr
  return response.code.toUInt32
