import ProjectLens.Command.Run

/-! # The program

Reads the files a command line may need, runs it, and prints what it gives. -/

namespace ProjectLens.Program

/-- What reading a path gives. -/
def stateOf (path : String) : IO FileState := do
  try
    return .contents (← IO.FS.readBinFile path).toList
  catch
    | .noFileOrDirectory .. => return .missing
    | .inappropriateType _ code _ => return if code = 21 then .folder else .blocked
    | error => return .refused (toString error)

/-- The file that holds the variables of the environment. -/
def environmentPath : String := "/proc/self/environ"

/-- The variables of the environment. -/
def vars : IO (List (String × String)) := do
  match ← stateOf environmentPath with
  | .contents bytes => return Environment.ofBlock (Utf8.decodeLossily bytes)
  | _ => return []

/-- Runs a command line. -/
def run (words : List String) : IO UInt32 := do
  let states ← (pathsToRead words).mapM fun path => do return (path, ← stateOf path)
  let files : Files := fun path => (states.lookup path).getD .missing
  let outcome := runArguments words files (← vars)
  IO.print outcome.output
  IO.eprint outcome.complaint
  return outcome.code.toUInt32

end ProjectLens.Program

/-- The entry point. -/
def main (words : List String) : IO UInt32 := ProjectLens.Program.run words
