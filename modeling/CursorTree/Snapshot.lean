/-
CursorTree.Snapshot — where the cursors of a tree stand.

A snapshot has the shape of a tree of cursors and holds at each node the
value that the cursor there stands on.  It is printed in parentheses, and
written as JSON with one object for each node.
-/
import CursorTree.Cursor.Basic
import CursorTree.Value.Json

namespace CursorTree

/-- The values that the cursors of a tree stand on. -/
inductive Snapshot where
  | node (result : Option Value) (subtrees : List Snapshot)

namespace Snapshot

mutual

/-- True when two snapshots have one shape and hold the same values. -/
def same : Snapshot → Snapshot → Bool
  | node r ss, node r' ss' => r == r' && sameAll ss ss'

/-- True when two lists of snapshots are the same pair by pair. -/
def sameAll : List Snapshot → List Snapshot → Bool
  | [], [] => true
  | s :: ss, t :: ts => s.same t && sameAll ss ts
  | _, _ => false

end

/-- The label of a node: its value, or an underscore. -/
def label : Option Value → List Char
  | some v => v.chars
  | none => ['_']

mutual

/-- A snapshot in parentheses: the label of the root, then each subtree
behind a blank. -/
def chars : Snapshot → List Char
  | node r ss => '(' :: label r ++ charsAll ss ++ [')']

/-- Some snapshots, each behind a blank. -/
def charsAll : List Snapshot → List Char
  | [] => []
  | s :: ss => ' ' :: s.chars ++ charsAll ss

end

/-- The printed form. -/
def display (s : Snapshot) : String := String.ofList s.chars

/-- A value as JSON, or the word for none. -/
def jsonResult : Option Value → List Char
  | some v => v.json
  | none => ['n', 'u', 'l', 'l']

/-- The text in front of the value of a node. -/
def resultKey : List Char := "\x7b\"result\":".toList

/-- The text between the value of a node and its subtrees. -/
def subtreesKey : List Char := ",\"subtrees\":[".toList

mutual

/-- A snapshot as JSON, without blanks. -/
def json : Snapshot → List Char
  | node r ss => resultKey ++ jsonResult r ++ subtreesKey ++ jsonAll ss ++ [']', '}']

/-- Some snapshots as JSON, separated by commas. -/
def jsonAll : List Snapshot → List Char
  | [] => []
  | s :: ss => s.json ++ jsonRest ss

/-- Some snapshots as JSON, each after a comma. -/
def jsonRest : List Snapshot → List Char
  | [] => []
  | s :: ss => ',' :: s.json ++ jsonRest ss

end

mutual

/-- The snapshot of a tree. -/
def ofCursor : Cursor → Snapshot
  | .stub h _ cs => node h.last (ofCursors cs)
  | .wrapper h i => node h.last [ofCursor i]
  | .join h cs => node h.last (ofCursors cs)
  | .watch _ i => ofCursor i
  | .empty h => node h.last []
  | .listing l => node l.head.last []
  | .inert h => node h.last []
  | .alternates h _ _ _ => node h.last []

/-- The snapshots of some trees. -/
def ofCursors : List Cursor → List Snapshot
  | [] => []
  | c :: cs => ofCursor c :: ofCursors cs

end

end Snapshot

end CursorTree
