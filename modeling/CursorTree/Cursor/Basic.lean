/-
CursorTree.Cursor.Basic — the nodes of a query plan.

A cursor is a lazy position in a set of values with two ways in: it
enumerates its values one after the other, and it tests whether a given
value is among them.  Cursors form trees.  The kinds are

* `empty` and `listing`, the leaves over no values and over a list;
* `inert`, a leaf that knows nothing about itself;
* `stub`, which answers with the estimates it was given;
* `wrapper`, which stands around one cursor until it is optimized away;
* `alternates`, which offers further bindings for each value of a list;
* `join`, which enumerates one child and tests the values on the others;
* `watch`, which is the cursor inside it, but reports the calls it gets.

Every kind except `watch` has a `Head` of its own; a watch has the head
of the cursor inside.
-/
import CursorTree.Cost
import CursorTree.Tags
import CursorTree.Uid

namespace CursorTree

/-- What every cursor carries: its identity, its tags, the value it stands
on, and a hint whether enumerating it is worth while. -/
structure Head where
  uid : Uid
  tags : Tags := .empty
  /-- The value confirmed last, by enumeration or by a test. -/
  last : Option Value := none
  /-- Advice only: nothing refuses to enumerate when it is false. -/
  canNext : Bool := true

namespace Head

/-- The head standing on a value. -/
def standOn (h : Head) (v : Value) : Head := { h with last := some v }

/-- The head standing on no value. -/
def clear (h : Head) : Head := { h with last := none }

/-- The head with its tags changed. -/
def retag (h : Head) (f : Tags → Tags) : Head := { h with tags := f h.tags }

end Head

/-- A list of values and the number of them enumerated so far. -/
structure Listing where
  head : Head
  values : List Value
  position : Nat := 0

namespace Listing

/-- The values not yet enumerated. -/
def pending (l : Listing) : List Value := l.values.drop l.position

/-- Appends a value to the end of the enumeration. -/
def add (l : Listing) (v : Value) : Listing := { l with values := l.values ++ [v] }

end Listing

/-- The answers that a stub was given to report. -/
structure Estimate where
  kind : String
  size : UInt64
  exact : Bool
  cost : Cost

/-- The answers of a cursor that knows nothing about itself. -/
def Estimate.unknown : Estimate := ⟨"bare", 0, true, .unfavorable⟩

/-- A node of a query plan, with everything below it. -/
inductive Cursor where
  | empty (head : Head)
  | listing (list : Listing)
  | inert (head : Head)
  | stub (head : Head) (estimate : Estimate) (children : List Cursor)
  | wrapper (head : Head) (inner : Cursor)
  | alternates (head : Head) (inner : Listing) (count current : UInt64)
  | join (head : Head) (children : List Cursor)
  | watch (name : String) (inner : Cursor)

namespace Cursor

/-- The head of a cursor; that of the cursor inside, for a watch. -/
def head : Cursor → Head
  | empty h => h
  | listing l => l.head
  | inert h => h
  | stub h _ _ => h
  | wrapper h _ => h
  | alternates h _ _ _ => h
  | join h _ => h
  | watch _ i => i.head

/-- The cursor with its head changed. -/
def modifyHead (f : Head → Head) : Cursor → Cursor
  | empty h => empty (f h)
  | listing l => listing { l with head := f l.head }
  | inert h => inert (f h)
  | stub h e cs => stub (f h) e cs
  | wrapper h i => wrapper (f h) i
  | alternates h l n k => alternates (f h) l n k
  | join h cs => join (f h) cs
  | watch w i => watch w (i.modifyHead f)

/-- The identity of a cursor. -/
def uid (c : Cursor) : Uid := c.head.uid

/-- The tags registered at a cursor itself. -/
def tags (c : Cursor) : Tags := c.head.tags

/-- The value a cursor stands on. -/
def last (c : Cursor) : Option Value := c.head.last

/-- The cursor with the tags at its own node changed. -/
def retag (f : Tags → Tags) (c : Cursor) : Cursor := c.modifyHead (·.retag f)

/-- The name of the kind of a cursor. -/
def kind : Cursor → String
  | empty _ => "null"
  | listing _ => "fixed"
  | inert _ => "bare"
  | stub _ e _ => e.kind
  | wrapper _ _ => "wrapper"
  | alternates _ _ _ _ => "alternates"
  | join _ _ => "intersect"
  | watch _ i => i.kind

/-- The cursors directly below a cursor. -/
def children : Cursor → List Cursor
  | stub _ _ cs => cs
  | wrapper _ i => [i]
  | join _ cs => cs
  | watch _ i => i.children
  | _ => []

/-- How many values a cursor expects, and whether the number is exact. -/
def size : Cursor → UInt64 × Bool
  | listing l => (clamp l.values.length, true)
  | stub _ e _ => (e.size, e.exact)
  | watch _ i => i.size
  | _ => (0, true)

/-- A fresh cursor over no values that still reports some tags. -/
def emptyWith (t : Tags) : Issuing Cursor := do
  return empty { uid := ← Issuing.fresh, tags := t }

end Cursor

namespace Cursor

mutual

/-- The cost triple by which a cursor is planned. -/
def cost : Cursor → Cost
  | empty _ => .zero
  | listing l => ⟨clamp l.values.length, 1, clamp l.values.length⟩
  | stub _ e _ => e.cost
  | join _ cs => .join (costs cs)
  | watch _ i => i.cost
  | inert _ | wrapper _ _ | alternates _ _ _ _ => .unfavorable

/-- The cost triples of some cursors. -/
def costs : List Cursor → List Cost
  | [] => []
  | c :: cs => c.cost :: costs cs

end

mutual

/-- The cost triple that a cursor tells when it is asked itself.  A join asks
its children, so it has no answer when one of them has none. -/
def cost? : Cursor → Option Cost
  | join _ cs => do Cost.join? (← costs? cs)
  | watch _ i => i.cost?
  | empty h => some (empty h).cost
  | listing l => some (listing l).cost
  | inert h => some (inert h).cost
  | stub h e cs => some (stub h e cs).cost
  | wrapper h i => some (wrapper h i).cost
  | alternates h l n k => some (alternates h l n k).cost

/-- The cost triples that some cursors tell, if each of them tells one. -/
def costs? : List Cursor → Option (List Cost)
  | [] => some []
  | c :: cs => do
    let k ← c.cost?
    return k :: (← costs? cs)

end

end Cursor

end CursorTree
