/-
CursorTree.Outline — a tree of cursors as lines of text.

The outline of a tree has one entry for every node, parents before their
children and children in order.  An entry knows its depth and what its
node tells about itself.  The text has a header with the size of the
root and then a line per entry, indented by two blanks for each level.

The costs in the lines are those that the nodes tell when they are asked
themselves (`outlineText?`).  A node that has none to tell leaves the tree
without a text.  A tree that is planned has its estimates in their place,
and always a text (`outlineText`).
-/
import CursorTree.Cursor.Basic

namespace CursorTree

/-- One node of an outlined tree. -/
structure OutlineEntry where
  depth : Nat
  kind : String
  uid : Uid
  cost : Cost
  deriving DecidableEq

namespace OutlineEntry

/-- The entry of a node at a depth, with the cost by which it is planned. -/
def ofCursor (depth : Nat) (c : Cursor) : OutlineEntry := ⟨depth, c.kind, c.uid, c.cost⟩

/-- The entry of a node at a depth, with the cost that it tells itself. -/
def ofCursor? (depth : Nat) (c : Cursor) : Option OutlineEntry :=
  c.cost?.map fun k => ⟨depth, c.kind, c.uid, k⟩

/-- The text behind the indentation. -/
def label (e : OutlineEntry) : String :=
  let c := e.cost
  s!"{e.kind} #{e.uid} (size: {c.size}, next: {c.nextCost}, check: {c.checkCost}, scan: {c.scan})"

/-- The line of an entry, without its end. -/
def line (e : OutlineEntry) : List Char :=
  List.replicate (2 * e.depth) ' ' ++ e.label.toList

end OutlineEntry

namespace Cursor

mutual

/-- The nodes of a tree in the order of its outline, each with its depth.
The root is at the depth given. -/
def outlined (depth : Nat) : Cursor → List (Nat × Cursor)
  | stub h e cs => (depth, stub h e cs) :: outlinedAll (depth + 1) cs
  | wrapper h i => (depth, wrapper h i) :: i.outlined (depth + 1)
  | join h cs => (depth, join h cs) :: outlinedAll (depth + 1) cs
  | watch _ i => i.outlined depth
  | empty h => [(depth, empty h)]
  | listing l => [(depth, listing l)]
  | inert h => [(depth, inert h)]
  | alternates h l n k => [(depth, alternates h l n k)]

/-- The nodes of some trees at a depth, one tree after the other. -/
def outlinedAll (depth : Nat) : List Cursor → List (Nat × Cursor)
  | [] => []
  | c :: cs => c.outlined depth ++ outlinedAll depth cs

end

/-- The entries of a tree, with the costs by which it is planned. -/
def outline (c : Cursor) : List OutlineEntry :=
  (c.outlined 0).map fun n => .ofCursor n.1 n.2

/-- The entries of a tree, with the costs that its nodes tell themselves. -/
def outline? (c : Cursor) : Option (List OutlineEntry) :=
  (c.outlined 0).mapM fun n => OutlineEntry.ofCursor? n.1 n.2

/-- The first line of an outline: the size of the root, marked with a tilde
when it is an estimate. -/
def outlineHeader (c : Cursor) : String :=
  let (size, exact) := c.size
  let mark := if exact then "" else "~"
  s!"Iterator tree (size: {mark}{size}):"

/-- The text of an outline with some entries, where every line is ended. -/
def outlineOf (c : Cursor) (entries : List OutlineEntry) : String :=
  String.ofList ((c.outlineHeader.toList :: entries.map OutlineEntry.line).flatMap (· ++ ['\n']))

/-- The outline of a tree, with the costs by which it is planned. -/
def outlineText (c : Cursor) : String := c.outlineOf c.outline

/-- The outline of a tree, with the costs that its nodes tell themselves. -/
def outlineText? (c : Cursor) : Option String := c.outline?.map c.outlineOf

end Cursor

end CursorTree
