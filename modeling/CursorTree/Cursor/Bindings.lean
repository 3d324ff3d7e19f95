/-
CursorTree.Cursor.Bindings — writing the tags of a tree into a row.

A cursor writes its own tags, bound to the value it stands on, and then
lets the cursors below it write theirs.  A later writing of a name counts.
-/
import CursorTree.Cursor.Basic

namespace CursorTree.Cursor

/-- The tag under which further bindings of one value are numbered. -/
def alternateTag : String := "alt"

mutual

/-- Writes every tag of a tree into a row. -/
def writeTags (row : Row) : Cursor → Traced Row
  | stub h _ cs => writeAll (h.tags.write h.last row) cs
  | wrapper h i => i.writeTags (h.tags.write h.last row)
  | alternates h _ _ k =>
    pure ((h.tags.write h.last row).insert alternateTag (some (.id k)))
  | join h cs => writeAll (h.tags.write h.last row) cs
  | watch w i => do
    Traced.call w .writeTags
    i.writeTags row
  | empty h => pure (h.tags.write h.last row)
  | listing l => pure (l.head.tags.write l.head.last row)
  | inert h => pure (h.tags.write h.last row)

/-- Writes the tags of some trees, one after the other. -/
def writeAll (row : Row) : List Cursor → Traced Row
  | [] => pure row
  | c :: cs => do
    let row ← c.writeTags row
    writeAll row cs

end

/-- The bindings of a tree. -/
def bindings (c : Cursor) : Traced Row := c.writeTags .empty

end CursorTree.Cursor
