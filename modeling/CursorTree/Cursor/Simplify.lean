/-
CursorTree.Cursor.Simplify — the replacement a cursor offers for itself.

Simplifying answers a cursor and a flag.  When the flag is false the answer
is the cursor itself.  An empty list becomes an empty cursor with its
tags.  A wrapper gives way to what is inside it.  A join simplifies each of
its children once; if one of them then costs nothing at all, no value can
pass it, and the join becomes an empty cursor that keeps the join's tags
and those of its children.
-/
import CursorTree.Cursor.Reset

namespace CursorTree.Cursor

/-- The tags of a node together with those of the cursors right below. -/
def gatheredTags (own : Tags) (children : List Cursor) : Tags :=
  children.foldl (fun t c => t.merge c.tags) own

mutual

/-- Offers a replacement, and says whether it is another cursor. -/
def simplify : Cursor → Issuing (Cursor × Bool)
  | listing l => do
    if l.values.isEmpty then
      return (← emptyWith l.head.tags, true)
    else
      return (listing l, false)
  | wrapper _ i => pure (i, true)
  | join h cs => do
    let (cs, changed) ← simplifyAll cs
    if (costs cs).any Cost.isZero then
      closeAll cs
      return (← emptyWith (gatheredTags h.tags cs), true)
    else
      return (join h cs, changed)
  | watch w i => do
    Traced.call w .optimize
    let (i, changed) ← i.simplify
    return (watch w i, changed)
  | empty h => pure (empty h, false)
  | inert h => pure (inert h, false)
  | stub h e cs => pure (stub h e cs, false)
  | alternates h l n k => pure (alternates h l n k, false)

/-- Simplifies some cursors once each, and says whether any was replaced. -/
def simplifyAll : List Cursor → Issuing (List Cursor × Bool)
  | [] => pure ([], false)
  | c :: cs => do
    let (c, here) ← c.simplify
    let (cs, there) ← simplifyAll cs
    return (c :: cs, here || there)

end

/-- Simplifies a root while that changes it, for so many passes at most, and
reports each pass. -/
def passes : Nat → Nat → Cursor → Issuing Cursor
  | 0, pass, c => do
    Traced.report (.capReached pass)
    return c
  | left + 1, pass, c => do
    let (d, changed) ← c.simplify
    if changed then
      Traced.report (.replaced pass c.uid d.uid d.kind)
      passes left (pass + 1) d
    else
      Traced.report (.unchanged pass c.uid)
      return d

/-- Optimizes a tree in at most `cap` passes; a cap of zero counts as one. -/
def optimize (cap : Nat) (c : Cursor) : Issuing Cursor :=
  passes (max cap 1) 0 c

end CursorTree.Cursor
