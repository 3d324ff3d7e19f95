/-
CursorTree.File — what is found at a path, and its text.

Only a file whose bytes are UTF-8 has a text.  The faults are worded as
the operating system words them.
-/

namespace CursorTree.File

/-- Why there is no text at a path. -/
inductive Fault where
  | missing
  | directory
  | notDirectory
  | longName
  | notText
  deriving DecidableEq

/-- The wording of a fault. -/
def Fault.message : Fault → String
  | missing => "No such file or directory (os error 2)"
  | directory => "Is a directory (os error 21)"
  | notDirectory => "Not a directory (os error 20)"
  | longName => "File name too long (os error 36)"
  | notText => "stream did not contain valid UTF-8"

/-- What is found at a path. -/
inductive Entry where
  | nothing
  | directory
  | file (content : ByteArray)

/-- The text of what is found at a path. -/
def Entry.text : Entry → Except Fault String
  | nothing => .error .missing
  | directory => .error .directory
  | file content =>
    match String.fromUTF8? content with
    | some s => .ok s
    | none => .error .notText

end CursorTree.File
