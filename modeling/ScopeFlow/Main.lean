import ScopeFlow.CommandLine.Run
import ScopeFlow.Workspace.Reader

/-!
# The program

Reads the files to analyse from standard input, as one line with a JSON object from paths to what the files hold, and
follows the command line.
-/

namespace ScopeFlow

/-- The directory that the files given on standard input are in. -/
def filesRoot : String := "/"

end ScopeFlow

open ScopeFlow

def main (args : List String) : IO UInt32 := do
  let text ← (← IO.getStdin).getLine
  let host : CommandLine.Host := {
    program := "scopeflow"
    workingDirectory := filesRoot
    libraryPaths := ["/lib"]
    disk := .ofJson filesRoot ((Json.parse text).getD .null) }
  match CommandLine.run host args with
  | .error fault =>
    IO.eprintln fault.message
    return 1
  | .ok outcome =>
    outcome.lines.forM (fun line => IO.println line)
    if outcome.exitCode == 2 then (CommandLine.usage host.program).forM (fun line => IO.eprintln line)
    match outcome.written with
    | some (path, text) => IO.FS.writeFile path text
    | none => pure ()
    return outcome.exitCode.toUInt32
