import TypedClient.Command.Run

/-!
# The program

The command line on the files of the machine.
-/

namespace TypedClient

/-- The fault that the machine reports. -/
def FileFault.ofError : IO.Error → FileFault
  | .noFileOrDirectory .. => .notFound
  | error => .other (toString error)

/-- An action on the machine, with its error as a result. -/
def attempt {α : Type} (action : IO α) : IO (Except FileFault α) := do
  try
    return .ok (← action)
  catch error =>
    return .error (.ofError error)

/-- The files of the machine. -/
def machineFiles : Files IO where
  read path := attempt (IO.FS.readFile path)
  createDirectories path := attempt (IO.FS.createDirAll path)
  write path text := attempt (IO.FS.writeFile path text)

end TypedClient

open TypedClient

/-- Runs the program on the words of the command line. -/
def main (words : List String) : IO UInt32 := do
  let outcome ← run machineFiles words
  (← IO.getStdout).putStr outcome.output
  (← IO.getStderr).putStr outcome.errorOutput
  return outcome.exitCode.toUInt32
