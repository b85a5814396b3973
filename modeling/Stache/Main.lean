/-
  The program: commands run on the files of the machine.
-/
import Stache.Command.Run

namespace Stache.Command

/-- The reason that the system gives. -/
def FileError.ofSystem : IO.Error → FileError
  | .noFileOrDirectory .. => .notFound
  | .inappropriateType _ code _ => if code = 21 then .isDirectory else .notDirectory
  | e => .other (toString e)

/-- The files of the machine. -/
def machine : FileAccess IO where
  read path := do
    try return .ok (← IO.FS.readFile path)
    catch e => return .error (.ofSystem e)
  write path text := do
    try
      IO.FS.writeFile path text
      return .ok ()
    catch e => return .error (.ofSystem e)

end Stache.Command

open Stache.Command in
/-- Runs one command, prints what it has to say, and ends with its exit code. -/
def main (arguments : List String) : IO UInt32 := do
  let place : Surroundings := ⟨← IO.getEnv "HOME", toString (← IO.currentDir)⟩
  let outcome ← execute machine place arguments
  (← IO.getStdout).putStr outcome.output
  (← IO.getStderr).putStr outcome.errors
  return outcome.exitCode.toUInt32
