/-
CursorTree.Proofs.Conjunction — enumeration and membership agree on trees
of joins over lists.

A conjunctive tree is built from empty cursors, lists and joins of at least
one child.  Such a tree describes one set in two ways.  Testing a value
asks every leaf.  Enumerating walks down the drivers to one leaf, the driver
leaf, and drops from its list what some other leaf lacks.

`enumeration_eq_membership` says that an untraversed tree enumerates the
list of its driver leaf, in order and with its repetitions, filtered to the
values that occur in every leaf; that these are the values it holds; and
that it is finished for good after them.

The driver leaf is described by a relation of its own (`DriverLeaf`), which
mentions costs but not how the least one is searched for.
-/
import CursorTree.Proofs.DriverChoice
import CursorTree.Proofs.Enumeration

namespace CursorTree.Cursor

mutual

/-- Trees of empty cursors, lists, and joins of at least one child. -/
def Conjunctive : Cursor → Prop
  | empty _ | listing _ => True
  | join _ cs => cs ≠ [] ∧ AllConjunctive cs
  | inert _ | stub _ _ _ | wrapper _ _ | alternates _ _ _ _ | watch _ _ => False

def AllConjunctive : List Cursor → Prop
  | [] => True
  | c :: cs => c.Conjunctive ∧ AllConjunctive cs

end

/-- An untraversed tree: rewinding it changes nothing. -/
def Fresh (c : Cursor) : Prop := c.rewound = c

mutual

/-- The lists at the leaves of a tree, from left to right.  A leaf that is
no list counts as the empty one. -/
def leafLists : Cursor → List (List Value)
  | listing l => [l.values]
  | join _ cs => allLeafLists cs
  | watch _ i => i.leafLists
  | empty _ | inert _ | stub _ _ _ | wrapper _ _ | alternates _ _ _ _ => [[]]

def allLeafLists : List Cursor → List (List Value)
  | [] => []
  | c :: cs => c.leafLists ++ allLeafLists cs

end

/-- The list of the leaf that is found from a root by following the first
child with the least scan cost. -/
inductive DriverLeaf : Cursor → List Value → Prop
  | empty (h : Head) : DriverLeaf (empty h) []
  | listing (l : Listing) : DriverLeaf (listing l) l.values
  | join {h : Head} {cs : List Cursor} {i : Nat} {d : Cursor} {vs : List Value}
      (hd : cs[i]? = some d) (least : IsFirstLeast (scans cs) i d.cost.scan)
      (leaf : DriverLeaf d vs) : DriverLeaf (join h cs) vs

/-- A tree after so many calls of `next`. -/
def afterNexts : Nat → Cursor → Cursor
  | 0, c => c
  | k + 1, c => c.next.val.2.afterNexts k

/-! ## 1. The driver leaf -/

theorem driverLeaf_unique {c : Cursor} {vs : List Value} (h : DriverLeaf c vs) :
    ∀ {ws : List Value}, DriverLeaf c ws → ws = vs := by
  induction h with
  | empty _ => intro ws h'; cases h'; rfl
  | listing _ => intro ws h'; cases h'; rfl
  | join hd least _ ih =>
    intro ws h'
    cases h' with
    | join hd' least' leaf' =>
      rw [least'.position_unique least, hd, Option.some.injEq] at hd'
      exact ih (hd' ▸ leaf')

theorem mem_allLeafLists {ws : List Value} {cs : List Cursor} :
    ws ∈ allLeafLists cs ↔ ∃ c ∈ cs, ws ∈ c.leafLists := by
  induction cs with
  | nil => simp [allLeafLists]
  | cons c cs ih => simp [allLeafLists, ih]

/-- The driver leaf is a leaf. -/
theorem DriverLeaf.mem_leafLists {c : Cursor} {vs : List Value} (h : DriverLeaf c vs) :
    vs ∈ c.leafLists := by
  induction h with
  | empty _ => exact List.mem_singleton_self _
  | listing _ => exact List.mem_singleton_self _
  | join hd _ _ ih => exact mem_allLeafLists.2 ⟨_, List.mem_of_getElem? hd, ih⟩

/-! ## 2. Membership -/

mutual

/-- A tree holds a value when all its leaves have it. -/
theorem holds_iff_leafLists (v : Value) :
    ∀ c : Cursor, c.holds v = true ↔ ∀ ws ∈ c.leafLists, v ∈ ws
  | empty _ | inert _ | stub _ _ _ | wrapper _ _ | alternates _ _ _ _ => by
      simp [holds, leafLists]
  | listing l => by simp [holds, leafLists]
  | join _ cs => holdAll_iff_allLeafLists v cs
  | watch _ i => holds_iff_leafLists v i

theorem holdAll_iff_allLeafLists (v : Value) :
    ∀ cs : List Cursor, holdAll v cs = true ↔ ∀ ws ∈ allLeafLists cs, v ∈ ws
  | [] => by simp [holdAll, allLeafLists]
  | c :: cs => by
      simp only [holdAll, allLeafLists, Bool.and_eq_true, List.mem_append, or_imp, forall_and,
        holds_iff_leafLists v c, holdAll_iff_allLeafLists v cs]

end

/-! ## 3. Enumeration -/

theorem ahead_afterNexts (k : Nat) : ∀ c : Cursor, (c.afterNexts k).ahead = c.ahead.drop k := by
  induction k with
  | zero => intro c; rfl
  | succ k ih =>
    intro c
    rw [afterNexts, ih, (next_spec c).ahead, List.drop_tail]

/-- Each call of `next` answers the next of the values ahead, and after them
none. -/
theorem next_afterNexts (c : Cursor) (k : Nat) :
    (c.afterNexts k).next.val.1 = c.ahead[k]? := by
  rw [(next_spec _).value, ahead_afterNexts, List.head?_drop]

mutual

/-- What an untraversed tree has ahead of it comes from its driver leaf. -/
theorem ahead_rewound : ∀ c : Cursor, c.Conjunctive →
    ∃ vs, DriverLeaf c vs ∧ c.rewound.ahead = vs.filter fun v => c.holds v
  | empty h, _ => ⟨[], .empty h, rfl⟩
  | listing l, _ => by
      refine ⟨l.values, .listing l, ?_⟩
      rw [rewound, ahead, Listing.pending_rewound]
      exact (List.filter_eq_self.2 fun v hv => decide_eq_true hv).symm
  | join h cs, hc => by
      obtain ⟨d, hd, least⟩ := driver_spec hc.1
      obtain ⟨vs, leaf, hvs⟩ := all_ahead_rewound cs hc.2 d (List.mem_of_getElem? hd)
      refine ⟨vs, .join hd least leaf, ?_⟩
      have hd' : (rewoundAll cs)[Cost.driver (costs cs)]? = some d.rewound := by
        rw [rewoundAll_eq_map, List.getElem?_map, hd, Option.map_some]
      rw [rewound, ahead, costs_rewoundAll, aheadAt_eq_filter hd', hvs, List.filter_filter]
      congr 1
      funext v
      rw [holds, ← holdAll_rewoundAll v cs, holdAll_eq_and_eraseIdx v hd', holds_rewound,
        Bool.true_and, Bool.and_comm]

theorem all_ahead_rewound : ∀ cs : List Cursor, AllConjunctive cs → ∀ c ∈ cs,
    ∃ vs, DriverLeaf c vs ∧ c.rewound.ahead = vs.filter fun v => c.holds v
  | [], _, c, hc => absurd hc List.not_mem_nil
  | d :: ds, h, c, hc => by
      rcases List.mem_cons.1 hc with heq | hc
      · rw [heq]
        exact ahead_rewound d h.1
      · exact all_ahead_rewound ds h.2 c hc

end

/-! ## 4. The two agree -/

/-- An untraversed conjunctive tree enumerates the list of its driver leaf,
filtered to the values that occur in all its leaves.  It enumerates a value
exactly when it answers a test of it with true, and once it has answered
none it goes on doing so. -/
theorem enumeration_eq_membership (c : Cursor) (hc : c.Conjunctive) (hf : c.Fresh) :
    ∃ vs, DriverLeaf c vs ∧ (∀ ws, DriverLeaf c ws → ws = vs) ∧
      (∀ k, (c.afterNexts k).next.val.1 =
        (vs.filter fun v => decide (∀ ws ∈ c.leafLists, v ∈ ws))[k]?) ∧
      (∀ v, (∃ k, (c.afterNexts k).next.val.1 = some v) ↔ (c.check v).val.1 = true) ∧
      ∀ j k, j ≤ k → (c.afterNexts j).next.val.1 = none → (c.afterNexts k).next.val.1 = none := by
  obtain ⟨vs, leaf, hvs⟩ := ahead_rewound c hc
  rw [hf] at hvs
  have hfilter : c.ahead = vs.filter fun v => decide (∀ ws ∈ c.leafLists, v ∈ ws) := by
    rw [hvs]
    congr 1
    funext v
    rw [Bool.eq_iff_iff, holds_iff_leafLists, decide_eq_true_iff]
  refine ⟨vs, leaf, fun ws => driverLeaf_unique leaf, fun k => ?_, fun v => ?_, fun j k hjk hj => ?_⟩
  · rw [next_afterNexts, hfilter]
  · simp only [next_afterNexts]
    rw [(check_spec v c).answer, ← List.mem_iff_getElem?, hvs, List.mem_filter]
    exact and_iff_right_of_imp fun h => (holds_iff_leafLists v c).1 h vs leaf.mem_leafLists
  · rw [next_afterNexts, List.getElem?_eq_none_iff] at hj ⊢
    exact Nat.le_trans hj hjk

/-- A join within a join.  The inner one is the cheaper child of the outer
one, and its first child the cheaper of the two in it. -/
def idsBelowThirty : Cursor :=
  join { uid := 4 } [listing ⟨{ uid := 0 }, Value.range 0 30, 0⟩,
    join { uid := 3 } [listing ⟨{ uid := 1 }, [.id 2, .id 3, .id 2], 0⟩,
      listing ⟨{ uid := 2 }, [.id 3, .id 7, .id 2, .id 5], 0⟩]]

theorem idsBelowThirty_enumeration :
    idsBelowThirty.Conjunctive ∧ idsBelowThirty.Fresh ∧
      ∃ vs, DriverLeaf idsBelowThirty vs ∧ (∀ ws, DriverLeaf idsBelowThirty ws → ws = vs) ∧
        (∀ k, (idsBelowThirty.afterNexts k).next.val.1 =
          (vs.filter fun v => decide (∀ ws ∈ idsBelowThirty.leafLists, v ∈ ws))[k]?) ∧
        (∀ v, (∃ k, (idsBelowThirty.afterNexts k).next.val.1 = some v) ↔
          (idsBelowThirty.check v).val.1 = true) ∧
        ∀ j k, j ≤ k → (idsBelowThirty.afterNexts j).next.val.1 = none →
          (idsBelowThirty.afterNexts k).next.val.1 = none := by
  have hc : idsBelowThirty.Conjunctive := by
    simp [idsBelowThirty, Conjunctive, AllConjunctive]
  exact ⟨hc, rfl, enumeration_eq_membership idsBelowThirty hc rfl⟩

end CursorTree.Cursor
