import Tabletop.CommandLine

/-! The program of the command line. -/

namespace Tabletop.CommandLine

/-- Why the system refuses a file. A directory is opened first and refused when it is read, with no
name any more. -/
def reasonOf : IO.Error → FileError
  | .noFileOrDirectory .. => .missing
  | .inappropriateType (some _) .. => .notDirectory
  | .inappropriateType none .. => .isDirectory
  | .invalidArgument .. => .nameTooLong
  | e => .other (toString e)

/-- A file with its contents, or with the reason why it cannot be read. -/
def readEntry (path : String) : IO (String × Except FileError String) := do
  try
    return (path, .ok (← IO.FS.readFile path))
  catch e => return (path, .error (reasonOf e))

end Tabletop.CommandLine

open Tabletop in
/-- Answers a call of the command line. -/
def main (args : List String) : IO UInt32 := do
  let entries ← (CommandLine.paths (CommandLine.parse args)).mapM CommandLine.readEntry
  let around : Surroundings := {
    file := fun path => (entries.lookup path).getD (.error .missing)
    loopGuard := ← IO.getEnv "PIECESCRIPT_LOOP_GUARD" }
  let outcome := CommandLine.run around args
  (← IO.getStdout).putStr outcome.stdout
  (← IO.getStderr).putStr outcome.stderr
  return outcome.code.toUInt32
