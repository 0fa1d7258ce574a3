import NestedStyles.Command.Report

/-!
# The command line program

Looks at the files that the command line names, runs it and prints what it answers.
-/

namespace NestedStyles.Program

/-- What a path of the file system leads to. -/
def find (path : String) : IO Found := do
  try
    return .file (← IO.FS.readBinFile path)
  catch
    | .inappropriateType .. => return .folder
    | _ => return .absent

def findAll : List String → IO (List (String × Found))
  | [] => return []
  | path :: paths => return (path, ← find path) :: (← findAll paths)

def stop (message : String) (exitCode : UInt32) : IO UInt32 := do
  IO.eprintln ("Error: " ++ message)
  return exitCode

def execute (report : Report) : IO UInt32 := do
  if let some (path, text) := report.output then IO.FS.writeFile path text
  IO.print report.stdout
  IO.eprint report.stderr
  return report.exitCode.toUInt32

def run (arguments : List String) : IO UInt32 := do
  match Invocation.ofArguments arguments with
  | .error usage => stop usage.message 2
  | .ok invocation =>
    let found ← findAll invocation.paths
    match invocation.report fun path => (found.lookup path).getD .absent with
    | .error (.usage usage) => stop usage.message 2
    | .error (.fault fault) => stop fault.message 1
    | .ok report => execute report

end NestedStyles.Program

def main (arguments : List String) : IO UInt32 := NestedStyles.Program.run arguments
