/-
CursorTree.Cursor.Reset — starting over and closing.

Resetting a list or a join puts it back to where it was before it was
traversed and keeps its values and tags; the other kinds keep whatever
they stand on.  Closing has no effect on a cursor but is passed on to the
cursors below.
-/
import CursorTree.Cursor.Basic

namespace CursorTree.Cursor

mutual

/-- Puts a cursor back to before its traversal. -/
def reset : Cursor → Traced Cursor
  | listing l => pure (listing { l with head := l.head.clear, position := 0 })
  | join h cs => do
    return join h.clear (← resetAll cs)
  | watch w i => do
    Traced.call w .reset
    return watch w (← i.reset)
  | empty h => pure (empty h)
  | inert h => pure (inert h)
  | stub h e cs => pure (stub h e cs)
  | wrapper h i => pure (wrapper h i)
  | alternates h l n k => pure (alternates h l n k)

/-- Puts some cursors back, one after the other. -/
def resetAll : List Cursor → Traced (List Cursor)
  | [] => pure []
  | c :: cs => do
    let c ← c.reset
    return c :: (← resetAll cs)

end

mutual

/-- Releases what a tree holds; only watches notice. -/
def close : Cursor → Traced Unit
  | wrapper _ i => i.close
  | join _ cs => closeAll cs
  | watch w i => do
    Traced.call w .close
    i.close
  | empty _ | listing _ | inert _ | stub _ _ _ | alternates _ _ _ _ => pure ()

/-- Closes some cursors, one after the other. -/
def closeAll : List Cursor → Traced Unit
  | [] => pure ()
  | c :: cs => do
    c.close
    closeAll cs

end

end CursorTree.Cursor
