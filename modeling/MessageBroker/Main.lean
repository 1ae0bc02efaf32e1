import MessageBroker.Demo.Program

/-!
# Entry point

Collects the files and variables that the demo may read, runs it and prints how it ends. The demo
runs in virtual time, from the start of 2024 on.
-/

namespace MessageBroker.Demo

/-- Reads a file if it is there. -/
def readIfPresent (name : String) : IO (Option Config.File) := do
  try return some ⟨name, ← IO.FS.readFile name⟩
  catch _ => return none

/-- Reads a variable if it is set. -/
def readVariable (name : String) : IO (Option (String × String)) := do
  return (← IO.getEnv name).map (Prod.mk name)

/-- Prints an ending, and gives the exit code. -/
def printEnding : Ending → IO UInt32
  | .finished log stats => do
    for line in log do IO.println line.text
    IO.print (Program.statsText stats)
    return 0
  | .helped => do
    IO.print helpText
    return 0
  | .refused code complaint => do
    IO.eprintln complaint
    return code.toUInt32
  | .unfinished => do
    IO.eprintln "the demo did not finish"
    return 1

end MessageBroker.Demo

open MessageBroker MessageBroker.Demo in
/-- Runs the demo. -/
def main (arguments : List String) : IO UInt32 := do
  let files ← (Program.filesWanted arguments).filterMapM readIfPresent
  let environment ← Program.variablesWanted.filterMapM readVariable
  let clock : Clock := ⟨.clamp 1704067200000000000, .zero⟩
  printEnding (Program.run { arguments, environment, files, clock })
