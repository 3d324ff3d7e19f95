/-
CursorTree.Proofs.DriverChoice — which child drives a join.

`IsFirstLeast` says what it is to be the first least key of a list, without
saying how it is found; `firstLeast_spec` says that the search finds it.
From there on the driver of a join is known only as the first child with
the least scan cost (`driver_spec`).
-/
import CursorTree.Proofs.Rewinding

namespace CursorTree

/-- The key at a position of a list is least, and every key in front of it
is greater. -/
structure IsFirstLeast (keys : List UInt64) (i : Nat) (key : UInt64) : Prop where
  at_position : keys[i]? = some key
  least : ∀ k ∈ keys, key ≤ k
  first : ∀ j k, j < i → keys[j]? = some k → key < k

/-- Only one position of a list has its first least key. -/
theorem IsFirstLeast.position_unique {keys : List UInt64} {i j : Nat} {a b : UInt64}
    (ha : IsFirstLeast keys i a) (hb : IsFirstLeast keys j b) : i = j := by
  have hab := UInt64.le_iff_toNat_le.1 (ha.least b (List.mem_of_getElem? hb.at_position))
  have hba := UInt64.le_iff_toNat_le.1 (hb.least a (List.mem_of_getElem? ha.at_position))
  rcases Nat.lt_trichotomy i j with hij | rfl | hji
  · have := UInt64.lt_iff_toNat_lt.1 (hb.first i a hij ha.at_position)
    omega
  · rfl
  · have := UInt64.lt_iff_toNat_lt.1 (ha.first j b hji hb.at_position)
    omega

namespace Cost

/-- The search for a first least key finds it. -/
theorem firstLeast_spec (keys : List UInt64) (h : keys ≠ []) :
    ∃ key, IsFirstLeast keys (firstLeast keys) key := by
  induction keys with
  | nil => exact absurd rfl h
  | cons k ks ih =>
    by_cases hks : ks = []
    · subst hks
      refine ⟨k, rfl, fun k' hk' => ?_, fun j k' hj => absurd hj (Nat.not_lt_zero j)⟩
      rw [List.mem_singleton.1 hk']
      exact UInt64.le_refl _
    obtain ⟨m, hm⟩ := ih hks
    simp only [firstLeast, hm.at_position]
    split
    next hlt =>
      refine ⟨m, by rw [List.getElem?_cons_succ, hm.at_position], fun k' hk' => ?_,
        fun j k' hj hk' => ?_⟩
      · rcases List.mem_cons.1 hk' with rfl | hk'
        · exact UInt64.le_of_lt hlt
        · exact hm.least k' hk'
      · cases j with
        | zero => rwa [← Option.some.inj hk']
        | succ j => exact hm.first j k' (Nat.lt_of_succ_lt_succ hj) hk'
    next hge =>
      refine ⟨k, rfl, fun k' hk' => ?_, fun j k' hj => absurd hj (Nat.not_lt_zero j)⟩
      rcases List.mem_cons.1 hk' with rfl | hk'
      · exact UInt64.le_refl _
      · exact UInt64.le_trans (UInt64.not_lt.1 hge) (hm.least k' hk')

/-- The driver among some children is the first of them with the least scan
cost. -/
theorem driver_isFirstLeast {cs : List Cost} (h : cs ≠ []) :
    ∃ d, cs[driver cs]? = some d ∧ IsFirstLeast (cs.map scan) (driver cs) d.scan := by
  obtain ⟨key, hkey⟩ := firstLeast_spec (cs.map scan) (by simpa using h)
  have hat := hkey.at_position
  rw [List.getElem?_map, Option.map_eq_some_iff] at hat
  obtain ⟨d, hd, rfl⟩ := hat
  exact ⟨d, hd, hkey⟩

end Cost

namespace Cursor

/-- The scan costs of some trees. -/
def scans (cs : List Cursor) : List UInt64 := cs.map fun c => c.cost.scan

theorem scans_eq_map_costs (cs : List Cursor) : scans cs = (costs cs).map Cost.scan := by
  rw [costs_eq_map, List.map_map]
  rfl

/-- A join of at least one child is driven by the first child with the least
scan cost. -/
theorem driver_spec {cs : List Cursor} (h : cs ≠ []) :
    ∃ d, cs[Cost.driver (costs cs)]? = some d ∧
      IsFirstLeast (scans cs) (Cost.driver (costs cs)) d.cost.scan := by
  have hcosts : costs cs ≠ [] := by simpa [costs_eq_map] using h
  obtain ⟨k, hk, hfirst⟩ := Cost.driver_isFirstLeast hcosts
  have hchild : (cs.map cost)[Cost.driver (costs cs)]? = some k := by rw [← costs_eq_map, hk]
  rw [List.getElem?_map, Option.map_eq_some_iff] at hchild
  obtain ⟨d, hd, rfl⟩ := hchild
  exact ⟨d, hd, scans_eq_map_costs cs ▸ hfirst⟩

end Cursor

end CursorTree
