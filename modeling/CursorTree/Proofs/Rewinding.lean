/-
CursorTree.Proofs.Rewinding — what traversing a tree can change, taken
away.

Two functions forget the traversal of a tree and keep everything else:

* `released` forgets the values that nodes stand on and keeps the
  positions in the lists.  It is what testing a value cannot change.
* `rewound` forgets the positions too.  It is what enumerating cannot
  change, and the tree as it was before any traversal.

A frame condition "this operation changes nothing else" is then an equation
between two such trees, and a function that looks at nothing forgotten
gives the same answer before and after (`costs_eq_of_rewoundAll_eq`).
Nodes that neither mode of traversal touches stay as they are, and so does
what is below them.
-/
import CursorTree.Cursor.Basic

namespace CursorTree

@[simp] theorem Head.clear_standOn (h : Head) (v : Value) : (h.standOn v).clear = h.clear := rfl

@[simp] theorem Head.clear_clear (h : Head) : h.clear.clear = h.clear := rfl

namespace Listing

/-- The list at its position, standing on nothing. -/
def released (l : Listing) : Listing := { l with head := l.head.clear }

/-- The list before it was traversed. -/
def rewound (l : Listing) : Listing := { l with head := l.head.clear, position := 0 }

@[simp] theorem rewound_released (l : Listing) : l.released.rewound = l.rewound := rfl

@[simp] theorem values_rewound (l : Listing) : l.rewound.values = l.values := rfl

/-- An untraversed list still holds all its values. -/
@[simp] theorem pending_rewound (l : Listing) : l.rewound.pending = l.values := rfl

end Listing

namespace Cursor

mutual

/-- The tree standing on nothing, with the positions in its lists kept. -/
def released : Cursor → Cursor
  | empty h => empty h
  | listing l => listing l.released
  | inert h => inert h
  | stub h e cs => stub h e cs
  | wrapper h i => wrapper h i
  | alternates h l n k => alternates h l n k
  | join h cs => join h.clear (releasedAll cs)
  | watch w i => watch w i.released

/-- Some trees standing on nothing. -/
def releasedAll : List Cursor → List Cursor
  | [] => []
  | c :: cs => c.released :: releasedAll cs

end

mutual

/-- The tree before it was traversed. -/
def rewound : Cursor → Cursor
  | empty h => empty h
  | listing l => listing l.rewound
  | inert h => inert h
  | stub h e cs => stub h e cs
  | wrapper h i => wrapper h i
  | alternates h l n _ => alternates h.clear l.rewound n 0
  | join h cs => join h.clear (rewoundAll cs)
  | watch w i => watch w i.rewound

/-- Some trees before they were traversed. -/
def rewoundAll : List Cursor → List Cursor
  | [] => []
  | c :: cs => c.rewound :: rewoundAll cs

end

/-! ## 1. The list versions are the pointwise ones -/

theorem releasedAll_eq_map (cs : List Cursor) : releasedAll cs = cs.map released := by
  induction cs with
  | nil => rfl
  | cons c cs ih => rw [releasedAll, ih, List.map_cons]

theorem rewoundAll_eq_map (cs : List Cursor) : rewoundAll cs = cs.map rewound := by
  induction cs with
  | nil => rfl
  | cons c cs ih => rw [rewoundAll, ih, List.map_cons]

theorem costs_eq_map (cs : List Cursor) : costs cs = cs.map cost := by
  induction cs with
  | nil => rfl
  | cons c cs ih => rw [costs, ih, List.map_cons]

@[simp] theorem rewoundAll_append (cs ds : List Cursor) :
    rewoundAll (cs ++ ds) = rewoundAll cs ++ rewoundAll ds := by
  simp only [rewoundAll_eq_map, List.map_append]

/-- Releasing keeps the number of trees. -/
theorem length_eq_of_releasedAll_eq {cs ds : List Cursor}
    (h : releasedAll cs = releasedAll ds) : cs.length = ds.length := by
  simpa [releasedAll_eq_map] using congrArg List.length h

/-! ## 2. Rewinding forgets at least what releasing forgets -/

mutual

@[simp] theorem rewound_released : ∀ c : Cursor, c.released.rewound = c.rewound
  | empty _ | inert _ | stub _ _ _ | wrapper _ _ | alternates _ _ _ _ => rfl
  | listing l => by rw [released, rewound, rewound, Listing.rewound_released]
  | join h cs => by
      rw [released, rewound, rewound, rewoundAll_releasedAll cs, Head.clear_clear]
  | watch w i => by rw [released, rewound, rewound, rewound_released i]

@[simp] theorem rewoundAll_releasedAll :
    ∀ cs : List Cursor, rewoundAll (releasedAll cs) = rewoundAll cs
  | [] => rfl
  | c :: cs => by
      rw [releasedAll, rewoundAll, rewoundAll, rewound_released c, rewoundAll_releasedAll cs]

end

theorem rewoundAll_eq_of_releasedAll_eq {cs ds : List Cursor}
    (h : releasedAll cs = releasedAll ds) : rewoundAll cs = rewoundAll ds := by
  rw [← rewoundAll_releasedAll cs, h, rewoundAll_releasedAll]

/-! ## 3. Costs do not depend on the traversal

A join picks its driver by cost at every step, so this is what makes it
pick the same driver throughout an enumeration. -/

mutual

@[simp] theorem cost_rewound : ∀ c : Cursor, c.rewound.cost = c.cost
  | empty _ | inert _ | stub _ _ _ | wrapper _ _ | alternates _ _ _ _ => rfl
  | listing l => by rw [rewound, cost, cost, Listing.values_rewound]
  | join h cs => by rw [rewound, cost, cost, costs_rewoundAll cs]
  | watch w i => by rw [rewound, cost, cost, cost_rewound i]

@[simp] theorem costs_rewoundAll : ∀ cs : List Cursor, costs (rewoundAll cs) = costs cs
  | [] => rfl
  | c :: cs => by rw [rewoundAll, costs, costs, cost_rewound c, costs_rewoundAll cs]

end

theorem costs_eq_of_rewoundAll_eq {cs ds : List Cursor} (h : rewoundAll cs = rewoundAll ds) :
    costs cs = costs ds := by
  rw [← costs_rewoundAll cs, h, costs_rewoundAll]

end Cursor

end CursorTree
