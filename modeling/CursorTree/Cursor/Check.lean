/-
CursorTree.Cursor.Check — testing a value for membership.

A test that succeeds leaves the cursor standing on the value; one that
fails leaves the node as it was.  A join asks its children in order and
stops at the first refusal, so the children in front of the refusal are
left standing on the value.
-/
import CursorTree.Cursor.Basic

namespace CursorTree.Cursor

mutual

/-- Tests a value, and answers the cursor after the test. -/
def check (v : Value) : Cursor → Traced (Bool × Cursor)
  | listing l =>
    if v ∈ l.values then
      pure (true, listing { l with head := l.head.standOn v })
    else
      pure (false, listing l)
  | join h cs => do
    let (held, cs) ← checkAll v cs
    if held then pure (true, join (h.standOn v) cs) else pure (false, join h cs)
  | watch w i => do
    Traced.call w .check
    let (held, i) ← i.check v
    return (held, watch w i)
  | empty h => pure (false, empty h)
  | inert h => pure (false, inert h)
  | stub h e cs => pure (false, stub h e cs)
  | wrapper h i => pure (false, wrapper h i)
  | alternates h l n k => pure (false, alternates h l n k)

/-- Tests a value on some cursors in order, up to the first refusal. -/
def checkAll (v : Value) : List Cursor → Traced (Bool × List Cursor)
  | [] => pure (true, [])
  | c :: cs => do
    let (held, c) ← c.check v
    if held then
      let (held, cs) ← checkAll v cs
      return (held, c :: cs)
    else
      return (false, c :: cs)

end

end CursorTree.Cursor
