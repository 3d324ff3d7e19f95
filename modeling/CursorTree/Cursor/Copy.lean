/-
CursorTree.Cursor.Copy — independent copies of a tree.

A copy has the values and the tags of a tree, but new identities, and it
stands on nothing.  Its nodes receive their identities in the order in
which they are made.  Two kinds do not pass their tags on, the wrapper and
the inert cursor.
-/
import CursorTree.Cursor.Basic

namespace CursorTree.Cursor

mutual

/-- An independent copy with fresh identities, standing on nothing.  The
nodes below a stub, a wrapper or a join are copied before the node itself; the
copies of a wrapper and of an inert cursor have no tags. -/
def copy : Cursor → Issuing Cursor
  | empty h => emptyWith h.tags
  | listing l => do
    return listing ⟨{ uid := ← Issuing.fresh, tags := Tags.empty.merge l.head.tags }, l.values, 0⟩
  | inert _ => do
    return inert { uid := ← Issuing.fresh }
  | stub h e cs => do
    let cs ← copyAll cs
    return stub { uid := ← Issuing.fresh, tags := h.tags } e cs
  | wrapper _ i => do
    let i ← i.copy
    return wrapper { uid := ← Issuing.fresh } i
  | alternates h l n _ => do
    let own ← Issuing.fresh
    let inner ← Issuing.fresh
    return alternates { uid := own, tags := h.tags } ⟨{ uid := inner }, l.values, 0⟩ n 0
  | join h cs => do
    let cs ← copyAll cs
    return join { uid := ← Issuing.fresh, tags := Tags.empty.merge h.tags } cs
  | watch w i => do
    Traced.call w .clone
    return watch w (← i.copy)

/-- Copies of some cursors, made one after the other. -/
def copyAll : List Cursor → Issuing (List Cursor)
  | [] => pure []
  | c :: cs => do
    let c ← c.copy
    return c :: (← copyAll cs)

end

end CursorTree.Cursor
