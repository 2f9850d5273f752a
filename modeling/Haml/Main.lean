import Haml.Command.Run

/-! The command line: reads what the command needs, runs it, and writes what comes of it. -/

namespace Haml

/-- What stands under a path of the file system. -/
def FileState.load (path : Text) : IO FileState := do
  try
    return .readable (← IO.FS.readFile (String.ofList path)).toList
  catch
    | .noFileOrDirectory _ _ _ => return .missing
    | .inappropriateType _ code details => return unreadable code details
    | .permissionDenied _ code details => return unreadable code details
    | e => return .unreadable (toString e).toList
where
  unreadable (code : UInt32) (details : String) : FileState :=
    .unreadable (details ++ " (os error " ++ toString code ++ ")").toList

/-- Runs a command line in the file system. Standard input is read only where a path names it. -/
def Command.runHere (arguments : List Text) : IO Outcome := do
  let paths := ((Command.read? arguments).map Command.paths).getD []
  let files ← paths.mapM fun path => return (path, ← FileState.load path)
  let stdin ← if paths.contains ['-'] then (← IO.getStdin).readToEnd else pure ""
  let env : Environment := ⟨stdin.toList, fun path => (files.lookup path).getD .missing⟩
  return Command.runArguments env arguments

end Haml

def main (arguments : List String) : IO UInt32 := do
  let outcome ← Haml.Command.runHere (arguments.map String.toList)
  (← IO.getStdout).putStr (String.ofList outcome.stdout)
  (← IO.getStderr).putStr (String.ofList outcome.stderr)
  return outcome.status.toUInt32
