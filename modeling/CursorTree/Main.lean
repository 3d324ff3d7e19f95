/-
CursorTree.Main — the program.

The pure part decides which file it needs and what it prints; this module
reads that file and prints.
-/
import CursorTree.CommandLine.Report

namespace CursorTree.CommandLine

/-- The text of the file at a path, or what is wrong with it.  A folder can
be opened but not read, so its error names no path. -/
def readFile (path : String) : IO (Except File.Fault String) := do
  try
    return (File.Entry.file (← IO.FS.readBinFile path)).text
  catch
    | .inappropriateType none _ _ => return .error .directory
    | .inappropriateType (some _) _ _ => return .error .notDirectory
    | .invalidArgument .. => return .error .longName
    | _ => return .error .missing

/-- The path of the settings that a list of arguments wants loaded. -/
def wantedPath (arguments : List String) : Option String :=
  match request arguments with
  | .run o => o.config
  | _ => none

end CursorTree.CommandLine

open CursorTree.CommandLine in
/-- Reads the settings that are asked for, and prints the outcome. -/
def main (arguments : List String) : IO UInt32 := do
  let found ← match wantedPath arguments with
    | some path => readFile path
    | none => pure (.error .missing)
  let outcome := respond (fun _ => found) arguments
  if let some line := outcome.log then
    IO.println line
  IO.print outcome.stdout
  IO.eprint outcome.stderr
  return outcome.code
