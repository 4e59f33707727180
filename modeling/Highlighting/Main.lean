-- The program: reads what a request needs, and prints the answer.
import Highlighting.CommandLine

namespace Highlighting.CommandLine

/-- The text of a file, or why it cannot be read. -/
def readText (path : String) : IO (Except String String) := do
  try
    return .ok (← IO.FS.readFile path)
  catch e => return .error (toString e)

/-- What a request can see of the world. -/
def Request.world (r : Request) : IO World := do
  let paths := r.config.toList ++ r.sourcePath.toList
  let files ← paths.mapM fun path => return (path, ← readText path)
  let input ← if r.readsInput then (← IO.getStdin).readToEnd else pure ""
  let environment ← variableNames.filterMapM fun name => do
    return (← IO.getEnv name).map fun value => (name, value)
  return {
    input
    environment
    file := fun path => (files.lookup path).getD (.error "file not found") }

end Highlighting.CommandLine

def main (args : List String) : IO UInt32 := do
  let world ← match Highlighting.CommandLine.read args with
    | .ok r => r.world
    | .error _ => pure ⟨"", fun _ => .error "file not found", []⟩
  let outcome := Highlighting.CommandLine.run world args
  IO.print outcome.output
  IO.eprint outcome.errors
  return outcome.code.toUInt32
