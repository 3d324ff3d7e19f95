/-
CursorTree.Proofs.Resetting — a reset undoes any traversal.

A tree is traversed by moves: it is asked for values and for further
bindings, tested, read, and reset on the way, in any order.  One more reset
of the root gives back the tree as it was before the first move, node by
node (`reset_undoes_traversal`).

Every kind of cursor keeps its rewound tree under every move
(`rewound_move`).  For trees of joins over lists more is true: a reset
rewinds them (`reset_eq_rewound`), and untraversed ones are rewound already
(`rewound_of_untraversed`).

An empty cursor is not changed by a reset.  That it nevertheless stands on
nothing afterwards is because no move can make it stand on anything: the
rewound tree has its empty cursors as they are.
-/
import CursorTree.Cursor.Bindings
import CursorTree.Cursor.Reset
import CursorTree.Proofs.Enumeration
import CursorTree.Proofs.Nodes

namespace CursorTree

/-- What is done with a tree while it is traversed. -/
inductive Move where
  | next
  | nextResult
  | check (v : Value)
  | writeTags (row : Row)
  | last
  | reset
  | close

namespace Cursor

/-- The tree after a move.  Writing its tags, reading the value it stands on
and closing it leave a tree as it is. -/
def move (c : Cursor) : Move → Traced Cursor
  | .next => do
    let (_, c) ← c.next
    return c
  | .nextResult => do
    let (_, c) ← c.nextResult
    return c
  | .check v => do
    let (_, c) ← c.check v
    return c
  | .writeTags row => do
    let _ ← c.writeTags row
    return c
  | .last => return c
  | .reset => c.reset
  | .close => do
    c.close
    return c

/-- The tree after some moves, in the order given. -/
def moveAll (c : Cursor) : List Move → Traced Cursor
  | [] => return c
  | m :: ms => do
    let c ← c.move m
    c.moveAll ms

mutual

/-- Trees of joins over lists and empty cursors. -/
def OverLists : Cursor → Prop
  | empty _ | listing _ => True
  | join _ cs => AllOverLists cs
  | watch _ i => i.OverLists
  | inert _ | stub _ _ _ | wrapper _ _ | alternates _ _ _ _ => False

def AllOverLists : List Cursor → Prop
  | [] => True
  | c :: cs => c.OverLists ∧ AllOverLists cs

end

/-- A node that stands on nothing and, if it is a list, has all its values
before it. -/
def AtStart (n : Cursor) : Prop := n.last = none ∧ ∀ l, n = listing l → l.position = 0

/-- Trees that have not been traversed. -/
def Untraversed (c : Cursor) : Prop := ∀ n ∈ c.nodes, n.AtStart

/-! ## 1. One move -/

mutual

theorem rewound_reset : ∀ c : Cursor, c.reset.val.rewound = c.rewound
  | empty _ | inert _ | stub _ _ _ | wrapper _ _ | alternates _ _ _ _ => rfl
  | listing _ => rfl
  | join h cs => by
      simp only [reset, Traced.val_bind, Traced.val_pure, rewound, rewoundAll_resetAll cs,
        Head.clear_clear]
  | watch w i => by
      simp only [reset, Traced.val_bind, Traced.val_pure, rewound, rewound_reset i]

theorem rewoundAll_resetAll :
    ∀ cs : List Cursor, rewoundAll (resetAll cs).val = rewoundAll cs
  | [] => rfl
  | c :: cs => by
      simp only [resetAll, Traced.val_bind, Traced.val_pure, rewoundAll, rewound_reset c,
        rewoundAll_resetAll cs]

end

theorem rewound_nextResult : ∀ c : Cursor, c.nextResult.val.2.rewound = c.rewound
  | empty _ | listing _ | inert _ | stub _ _ _ | wrapper _ _ | join _ _ => rfl
  | alternates h l n k => by
      rw [nextResult]
      split <;> rfl
  | watch w i => by
      simp only [nextResult, Traced.val_bind, Traced.val_pure, rewound, rewound_nextResult i]

/-- A move changes nothing but the traversal. -/
theorem rewound_move (c : Cursor) (m : Move) : (c.move m).val.rewound = c.rewound := by
  cases m with
  | next => exact (next_spec c).frame
  | nextResult => exact rewound_nextResult c
  | check v => exact rewound_check v c
  | reset => exact rewound_reset c
  | writeTags row | last | close => rfl

theorem rewound_moveAll (ms : List Move) : ∀ c : Cursor,
    (c.moveAll ms).val.rewound = c.rewound := by
  induction ms with
  | nil => intro c; rfl
  | cons m ms ih =>
    intro c
    simp only [moveAll, Traced.val_bind]
    rw [ih, rewound_move]

/-! ## 2. Trees of joins over lists -/

mutual

theorem overLists_rewound : ∀ c : Cursor, c.rewound.OverLists ↔ c.OverLists
  | empty _ | listing _ | inert _ | stub _ _ _ | wrapper _ _ | alternates _ _ _ _ => Iff.rfl
  | join _ cs => allOverLists_rewoundAll cs
  | watch _ i => overLists_rewound i

theorem allOverLists_rewoundAll :
    ∀ cs : List Cursor, AllOverLists (rewoundAll cs) ↔ AllOverLists cs
  | [] => Iff.rfl
  | c :: cs => and_congr (overLists_rewound c) (allOverLists_rewoundAll cs)

end

mutual

/-- A reset rewinds a tree of joins over lists. -/
theorem reset_eq_rewound : ∀ c : Cursor, c.OverLists → c.reset.val = c.rewound
  | empty _, _ | listing _, _ => rfl
  | join h cs, hc => by
      simp only [reset, Traced.val_bind, Traced.val_pure, rewound, resetAll_eq_rewoundAll cs hc]
  | watch w i, hc => by
      simp only [reset, Traced.val_bind, Traced.val_pure, rewound, reset_eq_rewound i hc]

theorem resetAll_eq_rewoundAll :
    ∀ cs : List Cursor, AllOverLists cs → (resetAll cs).val = rewoundAll cs
  | [], _ => rfl
  | c :: cs, hc => by
      simp only [resetAll, Traced.val_bind, Traced.val_pure, rewoundAll, reset_eq_rewound c hc.1,
        resetAll_eq_rewoundAll cs hc.2]

end

theorem clear_of_last_none {h : Head} (hlast : h.last = none) : h.clear = h := by
  cases h
  simp only at hlast
  simp [Head.clear, hlast]

mutual

theorem rewound_of_untraversed : ∀ c : Cursor, c.OverLists → c.Untraversed → c.rewound = c
  | empty _, _, _ => rfl
  | listing l, _, hstart => by
      obtain ⟨hlast, hposition⟩ := hstart _ (List.mem_singleton_self _)
      have hclear : l.head.clear = l.head := clear_of_last_none hlast
      rw [rewound, Listing.rewound, hclear, ← hposition l rfl]
  | join h cs, hc, hstart => by
      have hclear : h.clear = h := clear_of_last_none (hstart _ List.mem_cons_self).1
      have hcs := rewoundAll_of_untraversed cs hc fun n hn => hstart n (List.mem_cons_of_mem _ hn)
      rw [rewound, hclear, hcs]
  | watch w i, hc, hstart => by
      rw [rewound, rewound_of_untraversed i hc hstart]

theorem rewoundAll_of_untraversed : ∀ cs : List Cursor, AllOverLists cs →
    (∀ n ∈ allNodes cs, n.AtStart) → rewoundAll cs = cs
  | [], _, _ => rfl
  | c :: cs, hc, hstart => by
      have here := rewound_of_untraversed c hc.1 fun n hn => hstart n (List.mem_append_left _ hn)
      have there := rewoundAll_of_untraversed cs hc.2 fun n hn =>
        hstart n (List.mem_append_right _ hn)
      rw [rewoundAll, here, there]

end

/-! ## 3. Any traversal -/

theorem overLists_moveAll {c : Cursor} (hc : c.OverLists) (ms : List Move) :
    (c.moveAll ms).val.OverLists := by
  rw [← overLists_rewound, rewound_moveAll, overLists_rewound]
  exact hc

/-- A reset leads back from wherever the moves have led. -/
theorem reset_moveAll {c : Cursor} (hc : c.OverLists) (hstart : c.Untraversed) (ms : List Move) :
    (c.moveAll ms).val.reset.val = c := by
  rw [reset_eq_rewound _ (overLists_moveAll hc ms), rewound_moveAll,
    rewound_of_untraversed c hc hstart]

/-- Whatever is done with an untraversed tree of joins over lists, a reset of
its root gives it back as it was: the same tree in every respect, with every
node at its start, and so with the same values to enumerate. -/
theorem reset_undoes_traversal (c : Cursor) (hc : c.OverLists) (hstart : c.Untraversed)
    (ms : List Move) :
    (c.moveAll ms).val.reset.val = c ∧
      (c.moveAll ms).val.reset.val.Untraversed ∧
      ∀ most, ((c.moveAll ms).val.reset.val.drain most).val.1 = (c.drain most).val.1 := by
  have hback := reset_moveAll hc hstart ms
  rw [hback]
  exact ⟨rfl, hstart, fun _ => rfl⟩

/-- A list, of which the hint was taken back, joined with a join of lists. -/
def freshPlan : Cursor :=
  join { uid := 4, tags := Tags.empty.add "x" }
    [listing ⟨{ uid := 0, canNext := false }, [.id 4, .id 2, .id 4], 0⟩,
      join { uid := 3 } [listing ⟨{ uid := 1 }, [.id 2, .id 4], 0⟩,
        listing ⟨{ uid := 2, tags := Tags.empty.addFixed "y" (.name "n") },
          [.id 4, .id 2, .name "n"], 0⟩]]

theorem freshPlan_reset :
    freshPlan.OverLists ∧ freshPlan.Untraversed ∧
      (freshPlan.moveAll [.check (.id 2), .next, .nextResult, .reset, .next, .next,
        .writeTags .empty]).val.last = some (.id 2) ∧
      (freshPlan.moveAll [.check (.id 2), .next, .nextResult, .reset, .next, .next,
        .writeTags .empty]).val.reset.val = freshPlan := by
  have hc : freshPlan.OverLists := by
    simp [freshPlan, OverLists, AllOverLists]
  have hstart : freshPlan.Untraversed := by
    simp [freshPlan, Untraversed, nodes, allNodes, AtStart, last, head]
  exact ⟨hc, hstart, rfl, (reset_undoes_traversal freshPlan hc hstart _).1⟩

end Cursor

end CursorTree
