/-
CursorTree.Proofs.Paging — evaluating a tree in pages loses and repeats
nothing.

An evaluation under a limit stops as soon as its last row is written, and
the next evaluation of the same tree begins by asking for a value.  Where
every value has one row, nothing is left behind at the seam.  A cursor with
alternates is the exception: what the next evaluation asks for is a value
again, so further bindings of the value before it are passed over.

## How the proof goes

The rows of a tree without alternates are determined by its registries,
which a traversal leaves alone, and by the values ahead of it, which a
traversal takes from the front.  `rows_spec` says so for a single
evaluation, whose limit decides how many of the values ahead it takes.
Pages then take one piece of that list after the other.
-/
import CursorTree.Proofs.Expansion
import CursorTree.Proofs.RowBindings
import Mathlib.Algebra.Ring.Nat

namespace CursorTree.Cursor

/-- Evaluates a tree page by page, each page under a limit of its own. -/
def pages : List Nat → Cursor → Traced (List Table × Cursor)
  | [], c => pure ([], c)
  | n :: ns, c => do
    let (page, c) ← c.collect (some n)
    let (rest, c) ← pages ns c
    return (page :: rest, c)

/-- The row of a tree that stands on a value. -/
def rowOf (c : Cursor) (v : Value) : Row := Tags.writeEach v c.registries .empty

/-- What evaluating so many of the values ahead of a tree answers and leaves
behind. -/
structure Evaluated (c : Cursor) (n : Nat) (rows : List Row) (d : Cursor) : Prop where
  rows : rows = (c.ahead.take n).map c.rowOf
  ahead : d.ahead = c.ahead.drop n
  frame : d.rewound = c.rewound

/-! ## 1. Evaluated values -/

theorem rowOf_eq_of_rewound_eq {c d : Cursor} (h : c.rewound = d.rewound) :
    c.rowOf = d.rowOf := by
  unfold rowOf
  rw [registries_eq_of_rewound_eq h]

theorem evaluated_zero (c : Cursor) : Evaluated c 0 [] c := ⟨rfl, rfl, rfl⟩

/-- A tree that has no value left gives no row, whatever it is allowed. -/
theorem evaluated_exhausted {c d : Cursor} (h : c.next.val = (none, d)) (n : Nat) :
    Evaluated c n [] d := by
  have hstep := next_spec c
  rw [h] at hstep
  have hnil : c.ahead = [] := List.head?_eq_none_iff.1 hstep.value.symm
  refine ⟨?_, ?_, hstep.frame⟩
  · rw [hnil, List.take_nil, List.map_nil]
  · rw [hstep.ahead, hnil, List.tail_nil, List.drop_nil]

theorem ahead_eq_cons {c d : Cursor} {v : Value} (h : c.next.val = (some v, d)) :
    c.ahead = v :: d.ahead := by
  have hstep := next_spec c
  rw [h] at hstep
  rw [hstep.ahead]
  exact (List.cons_head?_tail hstep.value.symm).symm

/-- The value that a tree is moved to gives its row, and the values behind it
give theirs. -/
theorem Evaluated.cons {c d e : Cursor} {v : Value} {n : Nat} {rows : List Row}
    (h : c.next.val = (some v, d)) (rest : Evaluated d n rows e) :
    Evaluated c (n + 1) (d.rowOf v :: rows) e := by
  have hstep := next_spec c
  rw [h] at hstep
  refine ⟨?_, ?_, rest.frame.trans hstep.frame⟩
  · rw [ahead_eq_cons h, List.take_succ_cons, List.map_cons, rest.rows,
      rowOf_eq_of_rewound_eq hstep.frame]
  · rw [ahead_eq_cons h, List.drop_succ_cons, rest.ahead]

/-- Two evaluations one after the other take their values from one list. -/
theorem Evaluated.append {c d e : Cursor} {m n : Nat} {rows rows' : List Row}
    (h : Evaluated c m rows d) (h' : Evaluated d n rows' e) :
    Evaluated c (m + n) (rows ++ rows') e := by
  refine ⟨?_, ?_, h'.frame.trans h.frame⟩
  · rw [h.rows, h'.rows, rowOf_eq_of_rewound_eq h.frame, h.ahead, ← List.map_append,
      List.take_add]
  · rw [h'.ahead, h.ahead, List.drop_drop]

/-! ## 2. One evaluation -/

/-- The rows of a tree up to a limit, found in so many moves at most. -/
def rowsWithin (moves : Nat) (limit : Option Nat) (c : Cursor) : List Row × Cursor :=
  if limit = some 0 then ([], c)
  else
    match c.next.val with
    | (none, d) => ([], d)
    | (some _, d) => (gather moves limit d).val

/-- Behind the row of the value it stands on, a tree without alternates
gathers what it would give from there on with room for one row less. -/
theorem gather_succ {c : Cursor} {v : Value} (hc : c.WithoutAlternates) (hv : c.StandsOn v)
    {limit : Option Nat} (hpos : limit ≠ some 0) (moves : Nat) :
    (c.gather (moves + 1) limit).val =
      let r := rowsWithin moves (limit.map (· - 1)) c
      (c.rowOf v :: r.1, r.2) := by
  rw [gather, Traced.val_bind, bindings_eq_writeEach hc hv, ← rowOf]
  by_cases hone : limit = some 1
  · subst hone
    rfl
  · have hrest := room_pred_ne_zero hpos hone
    simp only [if_neg hone, rowsWithin, if_neg hrest, Traced.val_bind,
      advance_of_withoutAlternates hc]
    cases hnext : c.next.val with
    | mk answer d => cases answer <;> rfl

theorem rowsWithin_spec (moves : Nat) : ∀ (limit : Option Nat) {c : Cursor},
    c.WithoutAlternates → c.ahead.length ≤ moves →
      Evaluated c (limit.getD c.ahead.length) (rowsWithin moves limit c).1
        (rowsWithin moves limit c).2 := by
  induction moves with
  | zero =>
    intro limit c _ hmoves
    have hnil : c.ahead = [] := List.eq_nil_of_length_eq_zero (Nat.le_zero.1 hmoves)
    unfold rowsWithin
    split
    next hzero => exact hzero ▸ evaluated_zero c
    next =>
      split
      next d hnext => exact evaluated_exhausted hnext _
      next v d hnext => exact absurd ((ahead_eq_cons hnext).symm.trans hnil) (List.cons_ne_nil _ _)
  | succ moves ih =>
    intro limit c hc hmoves
    unfold rowsWithin
    split
    next hzero => exact hzero ▸ evaluated_zero c
    next hpos =>
      split
      next d hnext => exact evaluated_exhausted hnext _
      next v d hnext =>
        have hstep := next_spec c
        rw [hnext] at hstep
        have hd := withoutAlternates_of_rewound_eq hstep.frame hc
        have hlength : c.ahead.length = d.ahead.length + 1 := by
          rw [ahead_eq_cons hnext, List.length_cons]
        -- one value less is ahead, and one row less is allowed
        have hlimit : limit.getD c.ahead.length =
            (limit.map (· - 1)).getD d.ahead.length + 1 := by
          match limit with
          | none => exact hlength
          | some 0 => exact absurd rfl hpos
          | some (n + 1) => rfl
        rw [hlimit, gather_succ hd (hstep.stands v rfl) hpos]
        exact (ih (limit.map (· - 1)) (c := d) hd (by omega)).cons hnext

/-- The moves that an evaluation allows itself cover the values ahead. -/
theorem ahead_length_le_rowsAhead (c : Cursor) : c.ahead.length ≤ c.rowsAhead := by
  have hleft := bindingsLeft_le_rowsAhead c
  have hvalues : c.ahead.length ≤ c.ahead.length * (c.furtherEach + 1) :=
    Nat.le_mul_of_pos_right _ (Nat.succ_pos _)
  unfold bindingsLeft at hleft
  omega

/-- An evaluation takes as many of the values ahead as its limit allows, and
writes the row of each. -/
theorem rows_spec {c : Cursor} (hc : c.WithoutAlternates) (limit : Option Nat) :
    Evaluated c (limit.getD c.ahead.length) (c.rows limit).val.1 (c.rows limit).val.2 := by
  have hrows : (c.rows limit).val = rowsWithin (c.next.val.2.rowsAhead + 1) limit c := by
    unfold rows rowsWithin
    split
    · rfl
    · rw [Traced.val_bind]
      cases hnext : c.next.val with
      | mk answer d => cases answer <;> rfl
  have hmoves : c.ahead.length ≤ c.next.val.2.rowsAhead + 1 := by
    have hle := ahead_length_le_rowsAhead c.next.val.2
    rw [(next_spec c).ahead, List.length_tail] at hle
    omega
  rw [hrows]
  exact rowsWithin_spec _ limit hc hmoves

theorem collect_evaluated {c : Cursor} (hc : c.WithoutAlternates) (limit : Option Nat) :
    Evaluated c (limit.getD c.ahead.length) (c.collect limit).val.1.rows
      (c.collect limit).val.2 := by
  rw [(collect_spec limit c).1, Table.rows_pushAll]
  exact rows_spec hc limit

/-! ## 3. Pages -/

theorem pages_evaluated (limits : List Nat) : ∀ {c : Cursor}, c.WithoutAlternates →
    Evaluated c limits.sum ((c.pages limits).val.1.flatMap Table.rows) (c.pages limits).val.2 := by
  induction limits with
  | nil => intro c _; exact evaluated_zero c
  | cons n ns ih =>
    intro c hc
    have page := collect_evaluated hc (some n)
    exact page.append (ih (withoutAlternates_of_rewound_eq page.frame hc))

/-- The pages of a tree, one behind the other, are the first rows of an
evaluation without a limit, as many as there are or as the limits allow
together.  An evaluation without a limit after them gives all other rows. -/
theorem pages_lose_nothing (c : Cursor) (hc : c.WithoutAlternates) (limits : List Nat) :
    (c.pages limits).val.1.flatMap Table.rows = (c.collect none).val.1.rows.take limits.sum ∧
      ((c.pages limits).val.2.collect none).val.1.rows =
        (c.collect none).val.1.rows.drop limits.sum := by
  have paged := pages_evaluated limits hc
  have all := collect_evaluated hc none
  have others := collect_evaluated (withoutAlternates_of_rewound_eq paged.frame hc) none
  rw [Option.getD_none] at all others
  rw [all.rows, others.rows, List.take_length, List.take_length, paged.rows, paged.ahead,
    rowOf_eq_of_rewound_eq paged.frame]
  exact ⟨List.map_take, List.map_drop⟩

/-- A traversal in progress.  The driver is the inner join, which passes over
two of the values of its own driver and yields one of the others twice. -/
def longPlan : Cursor :=
  join { uid := 4, tags := Tags.empty.add "x" }
    [listing ⟨{ uid := 0, last := some (.id 9) }, Value.range 0 300, 3⟩,
      join { uid := 3 }
        [listing ⟨{ uid := 1 }, [.id 9, .id 2, .name "n", .id 3, .id 2, .id 40, .id 5], 1⟩,
          listing ⟨{ uid := 2, tags := Tags.empty.addFixed "y" (.name "n") }, Value.range 0 30, 0⟩]]

/-- The row of a value in that tree. -/
def longPlanRow (v : Value) : Row := (Dict.empty.insert "x" (some v)).insert "y" (some (.name "n"))

theorem longPlan_pages :
    longPlan.WithoutAlternates ∧
      (longPlan.collect none).val.1.rows = [.id 2, .id 3, .id 2, .id 5].map longPlanRow ∧
      (longPlan.pages [1, 2]).val.1.flatMap Table.rows = [.id 2, .id 3, .id 2].map longPlanRow ∧
      ((longPlan.pages [1, 2]).val.2.collect none).val.1.rows = [longPlanRow (.id 5)] := by
  have hc : longPlan.WithoutAlternates := by
    simp [longPlan, WithoutAlternates, nodes, allNodes, IsAlternates]
  have hall : (longPlan.collect none).val.1.rows =
      [.id 2, .id 3, .id 2, .id 5].map longPlanRow := by decide +kernel
  obtain ⟨hpages, hrest⟩ := pages_lose_nothing longPlan hc [1, 2]
  rw [hall] at hpages hrest
  exact ⟨hc, hall, hpages, hrest⟩

end CursorTree.Cursor
