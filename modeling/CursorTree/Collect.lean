/-
CursorTree.Collect — evaluating a tree into a table.

A tree is evaluated binding by binding: a row is written for the value
that `next` answers and one more for each further binding that
`nextResult` answers, before the next value is asked for.  When the row
just written is the last one allowed, nothing more is asked, so the tree
stays on the binding of its last row.

The number of rows still to come is bounded by what the lists of the tree
still hold (`rowsAhead`), which bounds the recursion.
-/
import CursorTree.Cursor.Bindings
import CursorTree.Cursor.Pull
import CursorTree.Cursor.Simplify
import CursorTree.Settings
import CursorTree.Table

namespace CursorTree.Cursor

mutual

/-- How many values the lists of a tree still hold. -/
def pendingCount : Cursor → Nat
  | listing l => l.pending.length
  | alternates _ l _ _ => l.pending.length
  | join _ cs => pendingCounts cs
  | watch _ i => i.pendingCount
  | empty _ | inert _ | stub _ _ _ | wrapper _ _ => 0

/-- How many values the lists of some trees still hold. -/
def pendingCounts : List Cursor → Nat
  | [] => 0
  | c :: cs => c.pendingCount + pendingCounts cs

end

/-- A bound on how often a tree can still move on to a binding. -/
def rowsAhead : Cursor → Nat
  | alternates _ l n k => (n.toNat - k.toNat) + l.pending.length * (n.toNat + 1)
  | watch _ i => i.rowsAhead
  | c => c.pendingCount

/-- Moves on to the next binding: a further one of the same value, or else
the first one of the next value. -/
def advance (c : Cursor) : Traced (Bool × Cursor) := do
  let (more, c) ← c.nextResult
  if more then
    return (true, c)
  else
    let (v, c) ← c.next
    return (v.isSome, c)

/-- The rows from the binding a tree stands on, as many as there is room
for.  There must be room for one; the first argument bounds the moves. -/
def gather : Nat → Option Nat → Cursor → Traced (List Row × Cursor)
  | moves, room, c => do
    let row ← c.bindings
    if room = some 1 then
      return ([row], c)
    else
      match moves with
      | 0 => return ([row], c)
      | moves + 1 =>
        let (more, c) ← c.advance
        if more then
          let (rows, c) ← gather moves (room.map (· - 1)) c
          return (row :: rows, c)
        else
          return ([row], c)

/-- The rows of a tree from where it stands, up to a limit, and the tree
behind them. -/
def rows (limit : Option Nat) (c : Cursor) : Traced (List Row × Cursor) := do
  if limit = some 0 then
    return ([], c)
  else
    match ← c.next with
    | (none, c) => return ([], c)
    | (some _, c) => gather (c.rowsAhead + 1) limit c

/-- Evaluates a tree into a table of at most `limit` rows, and reports how
it ended. -/
def collect (limit : Option Nat) (c : Cursor) : Traced (Table × Cursor) := do
  let (found, c) ← c.rows limit
  match limit with
  | some n => if found.length = n ∧ 0 < n then Traced.report (.limitReached n)
  | none => pure ()
  Traced.report (.finished found.length c.uid)
  return (Table.pushAll {} found, c)

/-- Apart from what it reports, an evaluation is its rows put into a table. -/
theorem collect_spec (limit : Option Nat) (c : Cursor) :
    (c.collect limit).val = (Table.pushAll {} (c.rows limit).val.1, (c.rows limit).val.2) ∧
      (c.collect limit).calls = (c.rows limit).calls := by
  simp only [collect, Traced.val_bind, Traced.calls_bind]
  match limit with
  | none => simp
  | some n =>
    simp only
    split <;> simp

/-- Optimizes a tree if that is wanted, evaluates it and closes it. -/
def execute (s : Settings) (c : Cursor) : Issuing Table := do
  let c ← if s.optimize then c.optimize s.maxPasses else pure c
  let (t, c) ← c.collect s.resultLimit
  c.close
  return t

end CursorTree.Cursor
