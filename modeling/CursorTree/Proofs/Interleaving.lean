/-
CursorTree.Proofs.Interleaving — enumerating a tree and testing values on
it do not disturb each other.

A tree is asked for next values and tested, in any order.  The statement is
one of noninterference, in both directions: the values it enumerates are
those of the same sequence without the tests, and every test answers what
it would answer on the tree before any traversal.

## How the proof goes

Each mode reads a part of the state that the other one does not write.

* `next` reads what is ahead of a tree.  A test inside a join reaches every
  depth of it and moves whatever it succeeds on, but all it changes is what
  nodes stand on (`check_spec`), and what is ahead does not depend on that
  (`ahead_released`).
* A test reads the values in the lists, which are in the rewound tree, and
  no access changes that.

So a run keeps the rewound tree, and two trees with the same values ahead
still have the same ones ahead after both are asked for one, or one of them
is tested.
-/
import CursorTree.Proofs.Enumeration

namespace CursorTree

/-- The two ways into a tree. -/
inductive Access where
  | next
  | check (v : Value)

/-- What a tree answers to an access. -/
inductive Response where
  | value (v : Option Value)
  | verdict (held : Bool)

namespace Access

def isNext : Access → Bool
  | next => true
  | check _ => false

def tested? : Access → Option Value
  | next => none
  | check v => some v

end Access

namespace Response

def isValue : Response → Bool
  | value _ => true
  | verdict _ => false

def verdict? : Response → Option Bool
  | value _ => none
  | verdict held => some held

end Response

namespace Cursor

def respondTo (c : Cursor) : Access → Traced (Response × Cursor)
  | .next => do
    let (v, c) ← c.next
    return (.value v, c)
  | .check v => do
    let (held, c) ← c.check v
    return (.verdict held, c)

/-- Some accesses in the order given, with the answer to each. -/
def respondAll (c : Cursor) : List Access → Traced (List Response × Cursor)
  | [] => pure ([], c)
  | a :: as => do
    let (r, c) ← c.respondTo a
    let (rs, c) ← c.respondAll as
    return (r :: rs, c)

/-! ## 1. What is ahead does not depend on what nodes stand on -/

theorem holds_released (v : Value) (c : Cursor) : c.released.holds v = c.holds v := by
  rw [← holds_rewound, rewound_released, holds_rewound]

theorem holdAll_releasedAll (v : Value) (cs : List Cursor) :
    holdAll v (releasedAll cs) = holdAll v cs := by
  rw [← holdAll_rewoundAll, rewoundAll_releasedAll, holdAll_rewoundAll]

mutual

theorem ahead_released : ∀ c : Cursor, c.released.ahead = c.ahead
  | empty _ | listing _ | inert _ | stub _ _ _ | wrapper _ _ | alternates _ _ _ _ => rfl
  | join h cs => by
      have hcosts : costs (releasedAll cs) = costs cs :=
        costs_eq_of_rewoundAll_eq (rewoundAll_releasedAll cs)
      rw [released, ahead, ahead, hcosts, aheadAt_releasedAll]
  | watch w i => by
      rw [released, ahead, ahead]
      exact ahead_released i

theorem aheadAt_releasedAll (p : Value → Bool) :
    ∀ (k : Nat) (cs : List Cursor), aheadAt p k (releasedAll cs) = aheadAt p k cs
  | _, [] => rfl
  | 0, c :: after => by
      simp only [releasedAll, aheadAt, ahead_released c, holdAll_releasedAll]
  | k + 1, c :: cs => by
      simp only [releasedAll, aheadAt, holds_released]
      exact aheadAt_releasedAll _ k cs

end

theorem ahead_check (v : Value) (c : Cursor) : (c.check v).val.2.ahead = c.ahead := by
  rw [← ahead_released, (check_spec v c).frame, ahead_released]

/-! ## 2. One access -/

theorem rewound_respondTo (c : Cursor) (a : Access) :
    (c.respondTo a).val.2.rewound = c.rewound := by
  cases a with
  | next => exact (next_spec c).frame
  | check v => exact rewound_check v c

/-- A test answers as it does on the rewound tree. -/
theorem answer_check_eq_rewound (v : Value) (c : Cursor) :
    (c.check v).val.1 = (c.rewound.check v).val.1 := by
  rw [(check_spec v c).answer, (check_spec v c.rewound).answer, holds_rewound]

/-- Trees with the same values ahead answer the same next value and go on
having the same values ahead. -/
theorem next_eq_of_ahead_eq {c d : Cursor} (h : c.ahead = d.ahead) :
    c.next.val.1 = d.next.val.1 ∧ c.next.val.2.ahead = d.next.val.2.ahead := by
  have hc := next_spec c
  have hd := next_spec d
  exact ⟨by rw [hc.value, h, hd.value], by rw [hc.ahead, h, hd.ahead]⟩

/-! ## 3. Runs -/

theorem verdicts_respondAll (as : List Access) : ∀ c : Cursor,
    (c.respondAll as).val.1.filterMap Response.verdict? =
      (as.filterMap Access.tested?).map fun v => (c.rewound.check v).val.1 := by
  induction as with
  | nil => intro c; rfl
  | cons a as ih =>
    intro c
    have hrest := ih (c.respondTo a).val.2
    rw [rewound_respondTo] at hrest
    simp only [respondAll, Traced.val_bind, Traced.val_pure]
    cases a with
    | next => exact hrest
    | check v => exact List.cons_eq_cons.2 ⟨answer_check_eq_rewound v c, hrest⟩

/-- The values of a run are those of a run without tests on any tree that
has the same values ahead. -/
theorem values_respondAll (as : List Access) : ∀ c d : Cursor, c.ahead = d.ahead →
    (c.respondAll as).val.1.filter Response.isValue =
      (d.respondAll (as.filter Access.isNext)).val.1 := by
  induction as with
  | nil => intro c d _; rfl
  | cons a as ih =>
    intro c d h
    simp only [respondAll, Traced.val_bind, Traced.val_pure]
    cases a with
    | next =>
      obtain ⟨hvalue, hahead⟩ := next_eq_of_ahead_eq h
      exact List.cons_eq_cons.2 ⟨congrArg Response.value hvalue, ih _ _ hahead⟩
    | check v => exact ih _ d ((ahead_check v c).trans h)

/-- However a tree is asked for values and tested, the values it answers are
those it answers without the tests, and its verdicts on the values tested
are those of the tree before it was traversed. -/
theorem accesses_do_not_interfere (c : Cursor) (as : List Access) :
    (c.respondAll as).val.1.filter Response.isValue =
        (c.respondAll (as.filter Access.isNext)).val.1 ∧
      (c.respondAll as).val.1.filterMap Response.verdict? =
        (as.filterMap Access.tested?).map fun v => (c.rewound.check v).val.1 :=
  ⟨values_respondAll as c c rfl, verdicts_respondAll as c⟩

end Cursor

end CursorTree
