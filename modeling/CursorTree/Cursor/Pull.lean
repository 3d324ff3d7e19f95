/-
CursorTree.Cursor.Pull — enumerating values.

`pull` asks a cursor for values until one of them is accepted.  Whoever
asks hands down a test with a state of its own.  A list offers its
pending values one after the other.  A join has its driver do the
offering: what the driver proposes is tested on the other children, and
only what they all hold is offered on.  So one pull runs down the tree to
a single list, and is finished when that list is, which makes the whole
enumeration recursion on the tree and on a list.

`next` is a pull that accepts whatever comes first.
-/
import CursorTree.Cursor.Check

namespace CursorTree

/-- A test of an offered value, in a state that it may change. -/
abbrev Acceptance (σ : Type) := Value → σ → Traced (Bool × σ)

/-- Offers the values of a list until one is accepted.  Answers that value,
the head standing on the value offered last, the position behind it, and
the state of the test. -/
def Listing.offer {σ : Type} (accept : Acceptance σ) (h : Head) (position : Nat) (s : σ) :
    List Value → Traced (Option Value × Head × Nat × σ)
  | [] => pure (none, h, position, s)
  | v :: vs => do
    let (taken, s) ← accept v s
    if taken then
      return (some v, h.standOn v, position + 1, s)
    else
      offer accept (h.standOn v) (position + 1) s vs

namespace Listing

/-- Offers the pending values of a listing until one is accepted. -/
def pull {σ : Type} (accept : Acceptance σ) (s : σ) (l : Listing) :
    Traced (Option Value × Listing × σ) := do
  let (v, h, position, s) ← offer accept l.head l.position s l.pending
  return (v, { l with head := h, position }, s)

end Listing

namespace Cursor

/-- The test a join makes of what its driver proposes: the children in
front of the driver must hold the value, then those behind it, and then
whoever asked the join must accept it.  The join stands on a value as soon
as its children hold it. -/
def amid {σ : Type} (accept : Acceptance σ) :
    Acceptance (Head × List Cursor × List Cursor × σ)
  | v, (h, before, after, s) => do
    let (held, before) ← checkAll v before
    if held then
      let (held, after) ← checkAll v after
      if held then
        let (taken, s) ← accept v s
        return (taken, h.standOn v, before, after, s)
      else
        return (false, h, before, after, s)
    else
      return (false, h, before, after, s)

/-- The test a cursor with alternates hands down: the cursor stands on every
value that is offered and numbers the bindings of that value from zero. -/
def numbering {σ : Type} (accept : Acceptance σ) : Acceptance (Head × UInt64 × σ)
  | v, (h, _, s) => do
    let (taken, s) ← accept v s
    return (taken, h.standOn v, 0, s)

/-- The test a watch hands down: a value that is refused is followed by one
more call of the watch. -/
def reporting {σ : Type} (name : String) (accept : Acceptance σ) : Acceptance σ
  | v, s => do
    let (taken, s) ← accept v s
    if taken then
      return (true, s)
    else
      Traced.call name .next
      return (false, s)

mutual

/-- Asks a cursor for values until one is accepted or none is left.
Answers the value, the cursor behind it, and the state of the test. -/
def pull {σ : Type} (accept : Acceptance σ) (s : σ) :
    Cursor → Traced (Option Value × Cursor × σ)
  | listing l => do
    let (v, l, s) ← l.pull accept s
    return (v, listing l, s)
  | alternates h l n k => do
    let (v, l, h, k, s) ← l.pull (numbering accept) (h, k, s)
    return (v, alternates h l n k, s)
  | join h cs => do
    let (v, h, cs, s) ← pullAt accept s h [] (Cost.driver (costs cs)) cs
    return (v, join h cs, s)
  | watch w i => do
    Traced.call w .next
    let (v, i, s) ← i.pull (reporting w accept) s
    return (v, watch w i, s)
  | empty h => pure (none, empty h, s)
  | inert h => pure (none, inert h, s)
  | stub h e cs => pure (none, stub h e cs, s)
  | wrapper h i => pure (none, wrapper h i, s)

/-- Pulls the child of a join at a position, with the children passed on
the way in front of it. -/
def pullAt {σ : Type} (accept : Acceptance σ) (s : σ) (h : Head) (before : List Cursor) :
    Nat → List Cursor → Traced (Option Value × Head × List Cursor × σ)
  | _, [] => pure (none, h, before, s)
  | 0, c :: after => do
    let (v, c, h, before, after, s) ← c.pull (amid accept) (h, before, after, s)
    return (v, h, before ++ c :: after, s)
  | k + 1, c :: cs => pullAt accept s h (before ++ [c]) k cs

end

/-- The next value of a cursor, none when it is exhausted. -/
def next (c : Cursor) : Traced (Option Value × Cursor) := do
  let (v, c, _) ← c.pull (fun _ s => pure (true, s)) ()
  return (v, c)

/-- Moves on to a further binding of the value a cursor stands on. -/
def nextResult : Cursor → Traced (Bool × Cursor)
  | alternates h l n k =>
    if k < n then pure (true, alternates h l n (k + 1)) else pure (false, alternates h l n k)
  | watch w i => do
    Traced.call w .nextResult
    let (more, i) ← i.nextResult
    return (more, watch w i)
  | c => pure (false, c)

/-- Up to so many next values, and the cursor behind them. -/
def drain : Nat → Cursor → Traced (List Value × Cursor)
  | 0, c => pure ([], c)
  | most + 1, c => do
    match ← c.next with
    | (none, c) => return ([], c)
    | (some v, c) => do
      let (vs, c) ← drain most c
      return (v :: vs, c)

end Cursor

end CursorTree
