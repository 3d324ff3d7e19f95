/-
CursorTree.CommandLine.Folder — files in one folder, found by their paths.

A path is followed from the folder step by step.  A step of no name or of
one dot stays where it is, two dots leave the folder for the folders above,
of which nothing is known but that they are folders.  A file has nothing
below it.
-/
import CursorTree.File

namespace CursorTree.CommandLine

/-- The files of a folder, by name. -/
structure Folder where
  files : List (String × ByteArray)

namespace Folder

/-- Where a path has led so far. -/
inductive Spot where
  | here
  | above
  | file (content : ByteArray)

/-- The longest name of a file, in bytes. -/
def longestName : Nat := 255

/-- The longest path, in bytes. -/
def longestPath : Nat := 4095

/-- Takes one step of a path. -/
def move (f : Folder) (s : Spot) (name : String) : Except File.Fault Spot :=
  match s with
  | .file _ => .error .notDirectory
  | .here =>
    if name = "" ∨ name = "." then .ok .here
    else if name = ".." then .ok .above
    else if longestName < name.utf8ByteSize then .error .longName
    else
      match f.files.lookup name with
      | some content => .ok (.file content)
      | none => .error .missing
  | .above =>
    if name = "" ∨ name = "." ∨ name = ".." then .ok .above
    else if longestName < name.utf8ByteSize then .error .longName
    else .error .missing

/-- The text of the file at a path. -/
def read (f : Folder) (path : String) : Except File.Fault String := do
  if path = "" then throw .missing
  if longestPath < path.utf8ByteSize then throw .longName
  let start := if path.toList.head? = some '/' then Spot.above else Spot.here
  match ← (path.splitOn "/").foldlM f.move start with
  | .file content => (File.Entry.file content).text
  | .here | .above => File.Entry.directory.text

end Folder

end CursorTree.CommandLine
