/-
CursorTree.Cursor.Describe — one text that describes a tree.

Lists and joins say who they are and empty cursors that they are empty;
all other kinds share one description.  The description of a join has a
line for each child, indented by four blanks more than the join itself.
-/
import CursorTree.Cursor.Basic
import CursorTree.Text.Quoted

namespace CursorTree.Cursor

/-- So many blanks. -/
def blanks (n : Nat) : String := String.ofList (List.replicate n ' ')

mutual

/-- The description of a tree, indented by so many blanks. -/
def describe (indent : Nat) : Cursor → String
  | empty _ => blanks indent ++ "(null)"
  | listing l =>
    let tags := Text.quotedList l.head.tags.dynamic
    blanks indent ++ s!"(fixed {l.head.uid} tags:{tags} size:{l.values.length})"
  | join h cs => blanks indent ++ s!"(intersect {h.uid}" ++ describeAll (indent + 4) cs ++ ")"
  | watch _ i => i.describe indent
  | inert _ | stub _ _ _ | wrapper _ _ | alternates _ _ _ _ => blanks indent ++ "(base)"

/-- The descriptions of some trees, each on a line of its own. -/
def describeAll (indent : Nat) : List Cursor → String
  | [] => ""
  | c :: cs => "\n" ++ c.describe indent ++ describeAll indent cs

end

end CursorTree.Cursor
