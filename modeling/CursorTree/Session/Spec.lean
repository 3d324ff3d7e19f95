/-
CursorTree.Session.Spec — cursors made to order.

A session keeps cursors in named slots and makes new ones from
specifications.  A specification names the kinds of a tree from the root
down; it may also take a cursor out of a slot and build on that.  Making a
tree issues an identity to each node in the order in which the nodes are
finished, children before the node above them; only a cursor with alternates
is numbered before the list inside it.
-/
import CursorTree.Cursor.Basic

namespace CursorTree

/-- A cursor in a slot.  It is `plain` while it is known to be a list that
was made as one and has been left alone since; only then may its values be
seen and extended. -/
structure Slot where
  cursor : Cursor
  plain : Bool

/-- The state of a session: its slots, its named rows, and the supply of
identities. -/
structure Session where
  slots : Dict Slot := .empty
  rows : Dict Row := .empty
  supply : Supply := {}

namespace Session

/-- Tags to register at a node when it is finished. -/
structure Dress where
  dynamic : List String := []
  fixed : List (String × Value) := []

/-- The tags of a registry and those of a dress. -/
def Dress.wear (d : Dress) (t : Tags) : Tags :=
  d.fixed.foldl (fun t e => t.addFixed e.1 e.2) (d.dynamic.foldl Tags.add t)

/-- The shape of a cursor that is to be made. -/
inductive Spec where
  | empty (dress : Dress)
  | listing (values : List Value) (dress : Dress)
  /-- The cursor in a slot, which is emptied. -/
  | slot (name : String) (dress : Dress)
  /-- A leaf that knows nothing about itself.  A stub plays it, so that its
  copies keep the tags. -/
  | inert (dress : Dress)
  /-- A leaf that knows nothing about itself, and whose copies have no tags. -/
  | bare (dress : Dress)
  | stub (estimate : Estimate) (children : List Spec) (dress : Dress)
  /-- So many wrappers around one another. -/
  | wrapper (depth : Nat) (inner : Spec) (dress : Dress)
  | alternates (values : List Value) (count : UInt64) (dress : Dress)
  | join (children : List Spec) (dress : Dress)
  | watch (name : String) (inner : Spec) (dress : Dress)

/-- Computations in a session that may miss a slot. -/
abbrev Making := OptionT (StateT Session Traced)

/-- Issues an identity from the supply of the session. -/
def issue : Making Uid := do
  let s ← get
  let (uid, supply) := s.supply.issue
  set { s with supply }
  return uid

/-- Takes the cursor out of a slot. -/
def take (name : String) : Making Slot := do
  let s ← get
  match s.slots.get? name with
  | none => failure
  | some slot =>
    set { s with slots := s.slots.erase name }
    return slot

/-- So many new wrappers around a cursor. -/
def wrap : Nat → Cursor → Making Cursor
  | 0, c => return c
  | depth + 1, c => do wrap depth (.wrapper { uid := ← issue } c)

namespace Spec

mutual

/-- Makes a cursor. -/
def build : Spec → Making Cursor
  | empty d => do
    return .empty { uid := ← issue, tags := d.wear .empty }
  | listing vs d => do
    return .listing ⟨{ uid := ← issue, tags := d.wear .empty }, vs, 0⟩
  | slot name d => do
    return (← take name).cursor.retag d.wear
  | inert d => do
    return .stub { uid := ← issue, tags := d.wear .empty } .unknown []
  | bare d => do
    return .inert { uid := ← issue, tags := d.wear .empty }
  | stub e cs d => do
    let cs ← buildAll cs
    return .stub { uid := ← issue, tags := d.wear .empty } e cs
  | wrapper depth i d => do
    let i ← i.build
    return (← wrap depth i).retag d.wear
  | alternates vs n d => do
    let own ← issue
    let inner ← issue
    return .alternates { uid := own, tags := d.wear .empty } ⟨{ uid := inner }, vs, 0⟩ n 0
  | join cs d => do
    let cs ← buildAll cs
    return .join { uid := ← issue, tags := d.wear .empty } cs
  | watch w i d => do
    return (Cursor.watch w (← i.build)).retag d.wear

/-- Makes some cursors, one after the other. -/
def buildAll : List Spec → Making (List Cursor)
  | [] => return []
  | s :: ss => do
    let c ← s.build
    return c :: (← buildAll ss)

end

/-- Makes the cursor of a slot.  It is plain when it is a list made here,
or a plain one moved from another slot. -/
def buildSlot : Spec → Making Slot
  | slot name d => do
    let moved ← take name
    return { moved with cursor := moved.cursor.retag d.wear }
  | listing vs d => do
    return ⟨← (listing vs d).build, true⟩
  | s => do
    return ⟨← s.build, false⟩

end Spec

end Session

end CursorTree
