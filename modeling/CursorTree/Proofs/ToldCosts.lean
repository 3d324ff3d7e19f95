/-
CursorTree.Proofs.ToldCosts — which cursors can tell what they cost.

Asked itself, a cursor of any kind but one has an answer.  A join asks its
children, looks for the one that would drive it, and adds up what the
children said.  So there is one way only not to have an answer, a join
without children.  In a tree without such a join every node tells its costs
(`forall_exists_cost?_iff`).

The estimates by which a tree is planned are those answers as long as the
sums fit a word (`cost?_eq_some_cost`).
-/
import CursorTree.Proofs.DriverChoice
import CursorTree.Proofs.Nodes
import Mathlib.Data.List.Forall2

namespace CursorTree

/-! ## 1. Answers of a list -/

section

variable {α β : Type} {f : α → Option β}

/-- Some questions are answered together when each of them is. -/
theorem mapM_eq_some_iff {xs : List α} {ys : List β} :
    xs.mapM f = some ys ↔ List.Forall₂ (fun x y => f x = some y) xs ys := by
  induction xs generalizing ys with
  | nil => cases ys <;> simp
  | cons x xs ih =>
    rw [List.mapM_cons, List.forall₂_cons_left_iff]
    simp only [Option.bind_eq_bind, Option.bind_eq_some_iff, Option.pure_def, Option.some.injEq, ih]
    constructor
    · rintro ⟨y, hy, ys, hys, rfl⟩
      exact ⟨y, ys, hy, hys, rfl⟩
    · rintro ⟨y, ys, hy, hys, rfl⟩
      exact ⟨y, hy, ys, hys, rfl⟩

theorem exists_mapM_eq_some_iff {xs : List α} :
    (∃ ys, xs.mapM f = some ys) ↔ ∀ x ∈ xs, ∃ y, f x = some y := by
  simp only [mapM_eq_some_iff]
  induction xs with
  | nil => simp
  | cons x xs ih =>
    rw [List.forall_mem_cons, ← ih]
    constructor
    · rintro ⟨ys, h⟩
      obtain ⟨y, ys, hy, hys, -⟩ := List.forall₂_cons_left_iff.1 h
      exact ⟨⟨y, hy⟩, ys, hys⟩
    · rintro ⟨⟨y, hy⟩, ys, hys⟩
      exact ⟨y :: ys, .cons hy hys⟩

theorem mapM_eq_some_map {g : α → β} {xs : List α} (h : ∀ x ∈ xs, f x = some (g x)) :
    xs.mapM f = some (xs.map g) :=
  mapM_eq_some_iff.2 (List.forall₂_map_right_iff.2 (List.forall₂_same.2 h))

end

namespace Cost

/-! ## 2. A join -/

theorem exists_join? {ks : List Cost} (h : ks ≠ []) : ∃ k, join? ks = some k := by
  obtain ⟨d, hd, -⟩ := driver_isFirstLeast h
  unfold join?
  rw [hd]
  exact ⟨_, rfl⟩

/-- Sums that fit a word are the same in both answers. -/
theorem join?_eq_some_join {ks : List Cost} (h : ks ≠ [])
    (hfit : ∀ k ∈ ks, k.nextCost.toNat + total (ks.map checkCost) ≤ maxWord) :
    join? ks = some (join ks) := by
  obtain ⟨d, hd, -⟩ := driver_isFirstLeast h
  have hsum := hfit d (List.mem_of_getElem? hd)
  have hcheck : (wordTotal (ks.map checkCost)).toNat = total (ks.map checkCost) :=
    toNat_wordTotal (by omega)
  have hcheck' : wordTotal (ks.map checkCost) = clamp (total (ks.map checkCost)) := by
    refine UInt64.toNat_inj.1 ?_
    rw [hcheck, toNat_clamp]
    omega
  have hnext : d.nextCost + clamp (total (ks.map checkCost)) =
      clamp (d.nextCost.toNat + (clamp (total (ks.map checkCost))).toNat) := by
    refine UInt64.toNat_inj.1 ?_
    rw [UInt64.toNat_add, toNat_clamp, toNat_clamp]
    unfold maxWord UInt64.size at hsum ⊢
    omega
  unfold join? join
  rw [hd, hcheck']
  simp only [Option.bind_eq_bind, Option.bind_some, hnext]
  rfl

end Cost

namespace Cursor

/-- No join of a tree is without children. -/
def Driven (c : Cursor) : Prop := ∀ h, join h [] ∉ c.nodes

/-- No sum of costs that a join of a tree is planned by is beyond a word. -/
def SumsFit (c : Cursor) : Prop :=
  ∀ h cs, join h cs ∈ c.nodes → ∀ k ∈ costs cs,
    k.nextCost.toNat + total ((costs cs).map Cost.checkCost) ≤ maxWord

/-! ## 3. A tree -/

theorem costs?_eq_mapM (cs : List Cursor) : costs? cs = cs.mapM cost? := by
  induction cs with
  | nil => rfl
  | cons c cs ih => rw [costs?, ih, List.mapM_cons]

mutual

/-- What goes for the kinds that have an answer of their own, and passes to a
join from its children, goes for a tree and all its nodes. -/
theorem at_nodes {P : Cursor → Prop} (own : ∀ c : Cursor, c.cost? = some c.cost → P c)
    (inside : ∀ w i, P i → P (watch w i)) : ∀ c : Cursor,
    (∀ h cs, join h cs ∈ c.nodes → (∀ d ∈ cs, P d) → P (join h cs)) → P c ∧ ∀ n ∈ c.nodes, P n
  | empty h, _ | listing l, _ | inert h, _ | alternates h l n k, _ => by
      simp only [nodes, List.mem_singleton, forall_eq, and_self]
      exact own _ rfl
  | stub h e cs, hjoin => by
      rw [nodes] at hjoin ⊢
      have hall :=
        (at_allNodes own inside cs fun h cs hmem => hjoin h cs (List.mem_cons_of_mem _ hmem)).2
      exact ⟨own _ rfl, List.forall_mem_cons.2 ⟨own _ rfl, hall⟩⟩
  | wrapper h i, hjoin => by
      rw [nodes] at hjoin ⊢
      have hall :=
        (at_nodes own inside i fun h cs hmem => hjoin h cs (List.mem_cons_of_mem _ hmem)).2
      exact ⟨own _ rfl, List.forall_mem_cons.2 ⟨own _ rfl, hall⟩⟩
  | join h cs, hjoin => by
      rw [nodes] at hjoin ⊢
      obtain ⟨hchildren, hall⟩ :=
        at_allNodes own inside cs fun h ds hmem => hjoin h ds (List.mem_cons_of_mem _ hmem)
      have hroot := hjoin h cs List.mem_cons_self hchildren
      exact ⟨hroot, List.forall_mem_cons.2 ⟨hroot, hall⟩⟩
  | watch w i, hjoin => by
      rw [nodes] at hjoin ⊢
      obtain ⟨hinner, hall⟩ := at_nodes own inside i hjoin
      exact ⟨inside w i hinner, hall⟩

theorem at_allNodes {P : Cursor → Prop} (own : ∀ c : Cursor, c.cost? = some c.cost → P c)
    (inside : ∀ w i, P i → P (watch w i)) : ∀ cs : List Cursor,
    (∀ h ds, join h ds ∈ allNodes cs → (∀ d ∈ ds, P d) → P (join h ds)) →
      (∀ c ∈ cs, P c) ∧ ∀ n ∈ allNodes cs, P n
  | [], _ => ⟨fun _ hc => absurd hc List.not_mem_nil, fun _ hn => absurd hn List.not_mem_nil⟩
  | c :: cs, hjoin => by
      rw [allNodes] at hjoin ⊢
      obtain ⟨hhere, hnodes⟩ :=
        at_nodes own inside c fun h ds hmem => hjoin h ds (List.mem_append_left _ hmem)
      obtain ⟨hthere, hall⟩ :=
        at_allNodes own inside cs fun h ds hmem => hjoin h ds (List.mem_append_right _ hmem)
      exact ⟨List.forall_mem_cons.2 ⟨hhere, hthere⟩, List.forall_mem_append.2 ⟨hnodes, hall⟩⟩

end

/-- Every node tells its costs exactly where every join has a child. -/
theorem forall_exists_cost?_iff {c : Cursor} :
    (∀ n ∈ c.nodes, ∃ k, n.cost? = some k) ↔ c.Driven := by
  constructor
  · intro hall h hjoin
    obtain ⟨k, hk⟩ := hall _ hjoin
    cases hk
  intro hc
  refine (at_nodes (P := fun n => ∃ k, n.cost? = some k) (fun n hn => ⟨n.cost, hn⟩)
    (fun w i hi => hi) c fun h cs hmem hcs => ?_).2
  have hne : cs ≠ [] := fun hnil => hc h (hnil ▸ hmem)
  obtain ⟨ks, hks⟩ := exists_mapM_eq_some_iff.2 hcs
  have hlength := (mapM_eq_some_iff.1 hks).length_eq
  have hks' : ks ≠ [] := by
    rintro rfl
    exact hne (List.eq_nil_of_length_eq_zero hlength)
  rw [cost?, costs?_eq_mapM, hks]
  exact Cost.exists_join? hks'

/-- Where moreover the sums fit a word, every node tells the cost by which it
is planned. -/
theorem cost?_eq_some_cost {c : Cursor} (hc : c.Driven) (hfit : c.SumsFit) :
    ∀ n ∈ c.nodes, n.cost? = some n.cost := by
  refine (at_nodes (P := fun n => n.cost? = some n.cost) (fun n hn => hn)
    (fun w i hi => hi) c fun h cs hmem hcs => ?_).2
  have hne : costs cs ≠ [] := by
    rw [costs_eq_map]
    exact fun hnil => hc h (List.map_eq_nil_iff.1 hnil ▸ hmem)
  have hks : costs? cs = some (costs cs) := by
    rw [costs?_eq_mapM, costs_eq_map]
    exact mapM_eq_some_map hcs
  rw [cost?, hks, cost]
  exact Cost.join?_eq_some_join hne (hfit h cs hmem)

end Cursor

end CursorTree
