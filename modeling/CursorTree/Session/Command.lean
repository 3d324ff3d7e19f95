/-
CursorTree.Session.Command — what can be asked of the cursors of a session.

A command goes to one slot.  It answers something and leaves the session
changed; most answers come with the value that the cursor in the slot
stands on afterwards.
-/
import CursorTree.Collect
import CursorTree.Cursor.Copy
import CursorTree.Cursor.Describe
import CursorTree.Outline
import CursorTree.Session.Spec
import CursorTree.Snapshot

namespace CursorTree.Session

/-- What can be asked of a cursor in a slot. -/
inductive Request where
  | next
  | drain (most : Nat)
  | nextResult
  | check (v : Value)
  | last
  | canNext
  | setCanNext (hint : Bool)
  | setLast (v : Value)
  | clearLast
  | size
  | cost
  | identity
  | children
  | tags
  | add (v : Value)
  | values
  | reset
  | close
  | addTag (name : String)
  | addFixedTag (name : String) (v : Value)
  /-- Write the tags into a named row of the session. -/
  | writeTags (row : String)
  | copy (target : String)
  | describe (indent : Nat)
  | outline
  | snapshot
  | simplify
  | optimize (cap : Nat)
  | collect (s : Settings)
  | execute (s : Settings)

/-- What can be asked of a slot. -/
inductive Command where
  | make (spec : Spec)
  /-- Make an empty cursor with the tags of the cursor in another slot. -/
  | emptyLike (other : String)
  | drop
  | ask (request : Request)

/-- The identity and the kind of a cursor. -/
structure Identity where
  uid : Uid
  kind : String

/-- The identity and the kind of a cursor. -/
def Identity.of (c : Cursor) : Identity := ⟨c.uid, c.kind⟩

/-- What a command answers. -/
inductive Answer where
  | nothing
  | flag (b : Bool)
  | count (n : Nat)
  | value (v : Option Value)
  | values (vs : List Value)
  | size (n : UInt64) (exact : Bool)
  | cost (c : Cost)
  | identity (i : Identity)
  | identities (is : List Identity)
  | tags (t : Tags)
  | row (r : Row)
  | text (s : String)
  | snapshot (s : Snapshot)
  | table (t : Table)
  /-- A copy: who it is, what it stands on, and whether it has the tags. -/
  | copied (i : Identity) (last : Option Value) (sameTags : Bool)
  /-- What stands in the place of a cursor, and whether it is another one. -/
  | replaced (i : Identity) (tags : Tags) (changed : Option Bool)
  /-- A slot is empty. -/
  | noSlot
  /-- The slot does not hold a plain list. -/
  | notListing

/-- An answer, with the value that the cursor in the slot stands on where
there is still one to be asked. -/
structure Reply where
  answer : Answer
  last : Option (Option Value)

/-- Computations in a session. -/
abbrev Serving := StateT Session Traced

/-- Runs a computation on the supply of identities of the session. -/
def withSupply {α : Type} (m : Issuing α) : Serving α := do
  let s ← get
  let (a, supply) ← (m.run s.supply : Traced (α × Supply))
  set { s with supply }
  return a

/-- Puts a cursor into a slot. -/
def put (slot : String) (c : Cursor) (plain : Bool) : Serving Unit :=
  modify fun s => { s with slots := s.slots.insert slot ⟨c, plain⟩ }

/-- A reply about a cursor. -/
def replyOf (a : Answer) (c : Cursor) : Reply := ⟨a, some c.last⟩

/-- Puts a cursor back into its slot and replies. -/
def keep (slot : String) (plain : Bool) (c : Cursor) (a : Answer) : Serving Reply := do
  put slot c plain
  return replyOf a c

/-- Empties a slot. -/
def vacate (slot : String) : Serving Unit :=
  modify fun s => { s with slots := s.slots.erase slot }

/-- Answers what is asked of the cursor in a slot. -/
def answer (slot : String) (c : Cursor) (plain : Bool) : Request → Serving Reply
  | .next => do
    let (v, c) ← c.next
    keep slot plain c (.value v)
  | .drain most => do
    let (vs, c) ← c.drain most
    keep slot plain c (.values vs)
  | .nextResult => do
    let (more, c) ← c.nextResult
    keep slot plain c (.flag more)
  | .check v => do
    let (held, c) ← c.check v
    keep slot plain c (.flag held)
  | .last => return replyOf (.value c.last) c
  | .canNext => return replyOf (.flag c.head.canNext) c
  | .setCanNext hint =>
    keep slot plain (c.modifyHead fun h => { h with canNext := hint }) (.flag hint)
  | .setLast v => keep slot plain (c.modifyHead (·.standOn v)) (.value (some v))
  | .clearLast => keep slot plain (c.modifyHead (·.clear)) (.value none)
  | .size => return replyOf (.size c.size.1 c.size.2) c
  | .cost => return replyOf (.cost c.cost) c
  | .identity => return replyOf (.identity (.of c)) c
  | .children => return replyOf (.identities (c.children.map .of)) c
  | .tags => return replyOf (.tags c.tags) c
  | .add v =>
    match plain, c with
    | true, .listing l =>
      keep slot plain (.listing (l.add v)) (.count (l.add v).values.length)
    | _, _ => return ⟨.notListing, none⟩
  | .values =>
    match plain, c with
    | true, .listing l => return replyOf (.values l.values) c
    | _, _ => return ⟨.notListing, none⟩
  | .reset => do keep slot plain (← c.reset) .nothing
  | .close => do
    c.close
    return replyOf .nothing c
  | .addTag n =>
    let c := c.retag (·.add n)
    keep slot plain c (.tags c.tags)
  | .addFixedTag n v =>
    let c := c.retag (·.addFixed n v)
    keep slot plain c (.tags c.tags)
  | .writeTags name => do
    let row ← c.writeTags (((← get).rows.get? name).getD .empty)
    modify fun s => { s with rows := s.rows.insert name row }
    return replyOf (.row row) c
  | .copy target => do
    let d ← withSupply c.copy
    put target d false
    return replyOf (.copied (.of d) d.last (d.tags = c.tags)) c
  | .describe indent => return replyOf (.text (c.describe indent)) c
  | .outline => return replyOf (.text c.outlineText) c
  | .snapshot => return replyOf (.snapshot (.ofCursor c)) c
  | .simplify => do
    let (d, changed) ← withSupply c.simplify
    keep slot false d (.replaced (.of d) d.tags (some changed))
  | .optimize cap => do
    let d ← withSupply (c.optimize cap)
    keep slot false d (.replaced (.of d) d.tags none)
  | .collect s => do
    let (t, c) ← c.collect s.resultLimit
    keep slot plain c (.table t)
  | .execute s => do
    vacate slot
    return ⟨.table (← withSupply (c.execute s)), none⟩

/-- Serves a command on a slot. -/
def serve (slot : String) (command : Command) : Serving Reply := do
  match command with
  | .make spec =>
    match ← spec.buildSlot.run with
    | none => return ⟨.noSlot, none⟩
    | some made => keep slot made.plain made.cursor (.identity (.of made.cursor))
  | .emptyLike other =>
    match (← get).slots.get? other with
    | none => return ⟨.noSlot, none⟩
    | some source => do
      let c ← withSupply (Cursor.emptyWith source.cursor.tags)
      keep slot false c (.identity (.of c))
  | .drop =>
    let held := ((← get).slots.get? slot).isSome
    vacate slot
    return ⟨.flag held, none⟩
  | .ask request =>
    match (← get).slots.get? slot with
    | none => return ⟨.noSlot, none⟩
    | some held => answer slot held.cursor held.plain request

end CursorTree.Session
