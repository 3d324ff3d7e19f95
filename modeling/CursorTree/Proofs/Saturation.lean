/-
CursorTree.Proofs.Saturation — the choice of a driver beside exact costs.

The scan cost of a child is a product that stops at the largest word, so
children of very different costs can have the same scan cost, and of these
the first one is chosen.  `exactScan` is the product itself.  The two orders
part only beyond a word: the chosen child is exactly the cheapest, or it and
the cheaper one both cost as much as a word can say
(`exactScan_le_or_saturated`).

A saturated cost does not become smaller when one of its factors grows
(`Raised.scan_le`), so children that were not chosen are not chosen either
when they become more expensive.
-/
import CursorTree.Proofs.DriverChoice
import Mathlib.Data.List.Forall2

namespace CursorTree

/-! ## 1. Raised keys -/

theorem IsFirstLeast.firstLeast_eq {keys : List UInt64} {i : Nat} {key : UInt64}
    (h : IsFirstLeast keys i key) : Cost.firstLeast keys = i := by
  have hkeys : keys ≠ [] := List.ne_nil_of_mem (List.mem_of_getElem? h.at_position)
  obtain ⟨least, hleast⟩ := Cost.firstLeast_spec keys hkeys
  exact hleast.position_unique h

/-- The first least key stays the first least one when other keys are
raised. -/
theorem IsFirstLeast.raise {keys raised : List UInt64} {i : Nat} {key : UInt64}
    (h : IsFirstLeast keys i key) (hraised : List.Forall₂ (· ≤ ·) keys raised)
    (hat : raised[i]? = some key) : IsFirstLeast raised i key := by
  have hbefore : ∀ (j : Nat) (k' : UInt64), raised[j]? = some k' →
      ∃ k, keys[j]? = some k ∧ k ≤ k' := by
    intro j k' hk'
    obtain ⟨hj', rfl⟩ := List.getElem?_eq_some_iff.1 hk'
    have hj : j < keys.length := hraised.length_eq ▸ hj'
    exact ⟨keys[j], List.getElem?_eq_getElem hj, hraised.get hj hj'⟩
  refine ⟨hat, fun k' hk' => ?_, fun j k' hj hk' => ?_⟩
  · obtain ⟨j, hj⟩ := List.getElem?_of_mem hk'
    obtain ⟨k, hk, hle⟩ := hbefore j k' hj
    exact UInt64.le_trans (h.least k (List.mem_of_getElem? hk)) hle
  · obtain ⟨k, hk, hle⟩ := hbefore j k' hk'
    exact UInt64.lt_of_lt_of_le (h.first j k hj hk) hle

namespace Cost

/-! ## 2. Exact costs -/

/-- The cost of enumerating everything, beyond a word if need be. -/
def exactScan (c : Cost) : Nat := c.size.toNat * c.nextCost.toNat

/-- The second triple expects no fewer values than the first, and no less
for each. -/
structure Raised (c d : Cost) : Prop where
  size_le : c.size ≤ d.size
  nextCost_le : c.nextCost ≤ d.nextCost

@[simp] theorem toNat_scan (c : Cost) : c.scan.toNat = min c.exactScan maxWord :=
  toNat_clamp _

/-- Scan costs order triples as exact costs do, as long as a word can tell
them apart. -/
theorem exactScan_le_or_saturated {c d : Cost} (h : c.scan ≤ d.scan) :
    c.exactScan ≤ d.exactScan ∨ (maxWord ≤ c.exactScan ∧ maxWord ≤ d.exactScan) := by
  rw [UInt64.le_iff_toNat_le, toNat_scan, toNat_scan] at h
  omega

theorem Raised.scan_le {c d : Cost} (h : Raised c d) : c.scan ≤ d.scan := by
  have hexact : c.exactScan ≤ d.exactScan :=
    Nat.mul_le_mul (UInt64.le_iff_toNat_le.1 h.size_le) (UInt64.le_iff_toNat_le.1 h.nextCost_le)
  rw [UInt64.le_iff_toNat_le, toNat_scan, toNat_scan]
  omega

theorem forall₂_scan_of_raised {cs raised : List Cost} (h : List.Forall₂ Raised cs raised) :
    List.Forall₂ (· ≤ ·) (cs.map scan) (raised.map scan) := by
  rw [List.forall₂_map_left_iff, List.forall₂_map_right_iff]
  exact h.imp fun _ _ => Raised.scan_le

/-! ## 3. The driver -/

/-- The driver among some children costs exactly no more than any other, or
both cost as much as a word can say; and it has a smaller scan cost than
every child in front of it.  Raising the costs of other children, of one or
of several, leaves it the driver. -/
theorem driver_withstands_saturation (cs : List Cost) (h : cs ≠ []) :
    ∃ d, cs[driver cs]? = some d ∧
      (∀ (j : Nat) (c : Cost), cs[j]? = some c →
        d.exactScan ≤ c.exactScan ∨ (maxWord ≤ d.exactScan ∧ maxWord ≤ c.exactScan)) ∧
      (∀ (j : Nat) (c : Cost), j < driver cs → cs[j]? = some c → d.scan < c.scan) ∧
      ∀ raised : List Cost, List.Forall₂ Raised cs raised → raised[driver cs]? = some d →
        driver raised = driver cs := by
  obtain ⟨d, hd, hfirst⟩ := driver_isFirstLeast h
  have hscan : ∀ {ds : List Cost} {j : Nat} {c : Cost}, ds[j]? = some c →
      (ds.map scan)[j]? = some c.scan := fun hc => by rw [List.getElem?_map, hc]; rfl
  refine ⟨d, hd, fun j c hc => ?_, fun j c hj hc => ?_, fun raised hraised hkept => ?_⟩
  · exact exactScan_le_or_saturated (hfirst.least c.scan (List.mem_of_getElem? (hscan hc)))
  · exact hfirst.first j c.scan hj (hscan hc)
  · exact (hfirst.raise (forall₂_scan_of_raised hraised) (hscan hkept)).firstLeast_eq

/-- Three children with one scan cost.  The one in front is the most
expensive of them, and the last one only just costs as much as a word can
say. -/
def saturatedCosts : List Cost :=
  [⟨0x8000000000000000, 4, 0⟩, ⟨0x8000000000000000, 2, 9⟩, ⟨0xffffffffffffffff, 1, 5⟩]

theorem saturatedCosts_driver :
    saturatedCosts ≠ [] ∧ driver saturatedCosts = 0 ∧
      saturatedCosts.map exactScan = [2 * (maxWord + 1), maxWord + 1, maxWord] ∧
      (∀ (j : Nat) (c : Cost), saturatedCosts[j]? = some c →
        2 * (maxWord + 1) ≤ c.exactScan ∨ maxWord ≤ c.exactScan) ∧
      driver [⟨0x8000000000000000, 4, 0⟩, ⟨0x8000000000000000, 3, 9⟩,
        ⟨0xffffffffffffffff, 7, 5⟩] = 0 := by
  have h : saturatedCosts ≠ [] := by decide
  have hdriver : driver saturatedCosts = 0 := by decide
  obtain ⟨d, hd, hexact, -, hraise⟩ := driver_withstands_saturation saturatedCosts h
  rw [hdriver] at hd hraise
  cases Option.some.inj hd
  refine ⟨h, hdriver, by decide, fun j c hc => (hexact j c hc).imp id And.right, hraise _ ?_ rfl⟩
  exact .cons ⟨by decide, by decide⟩
    (.cons ⟨by decide, by decide⟩ (.cons ⟨by decide, by decide⟩ .nil))

end Cost

end CursorTree
