/-
CursorTree.Proofs.NormalForm — what is left when a tree is optimized to the
end.

A pass that reports no change has looked at every node, so it says
something about each: none is a wrapper or an empty list, since those are
always replaced, and no child of a join costs nothing.  An empty cursor
costs nothing, so it can stand nowhere but alone at the root.  This is
`empty_or_solid_of_unchanged`, by recursion on the tree.

Every change takes weight off the tree (`weight_simplify_lt`), so a cap of
at least the weight is never reached and the last pass is such a pass
(`optimize_normalizes`).

A stub is the one node that is not looked into: it answers its estimates
and keeps what is below it, whatever that is.  Trees with stubs are left
out, and a simplification brings none in.
-/
import CursorTree.Proofs.Passes
import CursorTree.Proofs.Simplification

namespace CursorTree.Cursor

/-- Trees that simplifying can look into all the way down. -/
def StubFree (c : Cursor) : Prop := ∀ h e cs, stub h e cs ∉ c.nodes

/-- A node that no simplification would replace or drop. -/
def IsSolid : Cursor → Prop
  | empty _ | wrapper _ _ => False
  | listing l => l.values ≠ []
  | inert _ | stub _ _ _ | alternates _ _ _ _ | join _ _ | watch _ _ => True

/-- Trees in which nothing is left to simplify. -/
structure NormalForm (c : Cursor) : Prop where
  no_wrapper : ∀ h i, wrapper h i ∉ c.nodes
  no_empty_list : ∀ l, listing l ∈ c.nodes → l.values ≠ []
  empty_alone : ∀ h, empty h ∈ c.nodes → c.nodes = [empty h]

/-! ## 1. No stub is brought in -/

mutual

theorem stub_mem_of_simplify {h : Head} {e : Estimate} {ds : List Cursor} :
    ∀ (c : Cursor) (s : Supply), stub h e ds ∈ (c.simplify.outcome s).1.1.nodes →
      stub h e ds ∈ c.nodes
  | empty _, _, hmem | inert _, _, hmem | stub _ _ _, _, hmem | alternates _ _ _ _, _, hmem => hmem
  | wrapper _ _, _, hmem => List.mem_cons_of_mem _ hmem
  | listing l, s, hmem => by
      rw [simplify] at hmem
      split at hmem
      next => exact absurd (List.mem_singleton.1 hmem) Cursor.noConfusion
      next => exact hmem
  | join g cs, s, hmem => by
      simp only [simplify, Issuing.outcome_bind] at hmem
      split at hmem
      next => exact absurd (List.mem_singleton.1 hmem) Cursor.noConfusion
      next =>
        rcases List.mem_cons.1 hmem with heq | hbelow
        · exact absurd heq Cursor.noConfusion
        · exact List.mem_cons_of_mem _ (stub_mem_of_simplifyAll cs s hbelow)
  | watch _ i, s, hmem => stub_mem_of_simplify i s hmem

theorem stub_mem_of_simplifyAll {h : Head} {e : Estimate} {ds : List Cursor} :
    ∀ (cs : List Cursor) (s : Supply),
      stub h e ds ∈ allNodes ((simplifyAll cs).outcome s).1.1 → stub h e ds ∈ allNodes cs
  | [], _, hmem => hmem
  | c :: cs, s, hmem => by
      rcases List.mem_append.1 hmem with hhere | hthere
      · exact List.mem_append_left _ (stub_mem_of_simplify c s hhere)
      · exact List.mem_append_right _ (stub_mem_of_simplifyAll cs _ hthere)

end

theorem StubFree.simplify {c : Cursor} (hc : c.StubFree) (s : Supply) :
    (c.simplify.outcome s).1.1.StubFree :=
  fun h e cs hmem => hc h e cs (stub_mem_of_simplify c s hmem)

theorem StubFree.simplifyTimes (n : Nat) : ∀ (c : Cursor) (s : Supply), c.StubFree →
    ((simplifyTimes n c).outcome s).1.StubFree := by
  induction n with
  | zero => exact fun _ _ hc => hc
  | succ n ih => exact fun _ _ hc => ih _ _ (hc.simplify _)

/-! ## 2. Nothing left to simplify -/

mutual

/-- A tree that a pass left as it was is an empty cursor, or there is none
in it, nor anything else that simplifying replaces. -/
theorem empty_or_solid_of_unchanged : ∀ (c : Cursor) {s : Supply}, c.StubFree →
    (c.simplify.outcome s).1.2 = false →
      (∃ h, c.nodes = [empty h] ∧ c.cost = .zero) ∨ ∀ n ∈ c.nodes, n.IsSolid
  | empty h, _, _, _ => .inl ⟨h, rfl, rfl⟩
  | inert _, _, _, _ | alternates _ _ _ _, _, _, _ =>
      .inr fun n hn => (List.mem_singleton.1 hn) ▸ trivial
  | stub h e cs, _, hc, _ => absurd List.mem_cons_self (hc h e cs)
  | wrapper _ _, _, _, hsame => absurd hsame.symm Bool.false_ne_true
  | listing l, s, _, hsame => by
      rw [simplify] at hsame
      split at hsame
      next => exact absurd hsame.symm Bool.false_ne_true
      next hfull =>
        refine .inr fun n hn => ?_
        rw [List.mem_singleton.1 hn]
        exact fun hnil => hfull (List.isEmpty_iff.2 hnil)
  | join g cs, s, hc, hsame => by
      simp only [simplify, Issuing.outcome_bind] at hsame
      split at hsame
      next => exact absurd hsame.symm Bool.false_ne_true
      next hnone =>
        rw [settledAll_of_unchanged cs hsame s] at hnone
        have hcostly : ∀ c ∈ cs, c.cost ≠ .zero := fun c hmem hzero =>
          hnone (any_isZero_iff.2 ⟨c, hmem, hzero⟩)
        have hfree : ∀ h e ds, stub h e ds ∉ allNodes cs := fun h e ds hmem =>
          hc h e ds (List.mem_cons_of_mem _ hmem)
        refine .inr fun n hn => ?_
        rcases List.mem_cons.1 hn with heq | hbelow
        · rw [heq]
          trivial
        · exact all_solid_of_unchanged cs hfree hsame hcostly n hbelow
  | watch _ i, _, hc, hsame => empty_or_solid_of_unchanged i hc hsame

/-- Children of which none costs nothing are not empty cursors. -/
theorem all_solid_of_unchanged : ∀ (cs : List Cursor) {s : Supply},
    (∀ h e ds, stub h e ds ∉ allNodes cs) → ((simplifyAll cs).outcome s).1.2 = false →
      (∀ c ∈ cs, c.cost ≠ .zero) → ∀ n ∈ allNodes cs, n.IsSolid
  | [], _, _, _, _ => fun n hn => absurd hn List.not_mem_nil
  | c :: cs, s, hc, hsame, hcostly => by
      simp only [simplifyAll, Issuing.outcome_bind, Issuing.outcome_pure,
        Bool.or_eq_false_iff] at hsame
      intro n hn
      rcases List.mem_append.1 hn with hhere | hthere
      · have hfree : c.StubFree := fun h e ds hmem => hc h e ds (List.mem_append_left _ hmem)
        rcases empty_or_solid_of_unchanged c hfree hsame.1 with ⟨h, -, hzero⟩ | hsolid
        · exact absurd hzero (hcostly c List.mem_cons_self)
        · exact hsolid n hhere
      · have hfree : ∀ h e ds, stub h e ds ∉ allNodes cs := fun h e ds hmem =>
          hc h e ds (List.mem_append_right _ hmem)
        exact all_solid_of_unchanged cs hfree hsame.2
          (fun d hd => hcostly d (List.mem_cons_of_mem _ hd)) n hthere

end

theorem Settled.normalForm {c : Cursor} (h : c.Settled) (hc : c.StubFree) : c.NormalForm := by
  have hsame : (c.simplify.outcome ⟨0⟩).1.2 = false := by rw [h]
  rcases empty_or_solid_of_unchanged c hc hsame with ⟨g, hnodes, -⟩ | hsolid
  · refine ⟨fun h i hmem => ?_, fun l hmem => ?_, fun h hmem => ?_⟩
    · rw [hnodes] at hmem
      exact absurd (List.mem_singleton.1 hmem) Cursor.noConfusion
    · rw [hnodes] at hmem
      exact absurd (List.mem_singleton.1 hmem) Cursor.noConfusion
    · rw [hnodes] at hmem ⊢
      rw [List.mem_singleton.1 hmem]
  · exact ⟨fun h i hmem => hsolid _ hmem, fun l hmem => hsolid _ hmem,
      fun h hmem => (hsolid _ hmem).elim⟩

/-! ## 3. The optimizer reaches it -/

/-- Every change takes weight off a tree, and an optimizer that is allowed
as many passes as the tree is heavy reports fewer changes than that and
then that there is none; nothing is left to simplify in what it answers. -/
theorem optimize_normalizes (c : Cursor) (hc : c.StubFree) (s : Supply) :
    ((c.simplify.outcome s).1.2 = true → (c.simplify.outcome s).1.1.weight < c.weight) ∧
      ∀ cap, c.weight ≤ cap →
        ∃ k < c.weight,
          (c.optimize cap).events s = (List.range k).map (c.replacement s 0) ++
            [.unchanged k ((c.optimize cap).outcome s).1.uid] ∧
          (∀ n, .capReached n ∉ (c.optimize cap).events s) ∧
          ((c.optimize cap).outcome s).1.NormalForm := by
  refine ⟨weight_simplify_lt c s, fun cap hcap => ?_⟩
  obtain ⟨k, hk, h⟩ := exists_firstUnchanged c.weight c s (Nat.le_refl _)
  have hlt : k < max cap 1 := by omega
  have houtcome : (c.optimize cap).outcome s = (simplifyTimes k c).outcome s :=
    outcome_passes_of_firstUnchanged h hlt 0
  have hevents : (c.optimize cap).events s = (List.range k).map (c.replacement s 0) ++
      [.unchanged k ((c.optimize cap).outcome s).1.uid] := by
    rw [houtcome, optimize, events_passes_of_firstUnchanged h hlt, Nat.zero_add]
  refine ⟨k, hk, hevents, fun n hmem => ?_, ?_⟩
  · rw [hevents] at hmem
    rcases List.mem_append.1 hmem with hchange | hlast
    · obtain ⟨i, -, heq⟩ := List.mem_map.1 hchange
      exact absurd heq Event.noConfusion
    · exact absurd (List.mem_singleton.1 hlast) Event.noConfusion
  · rw [houtcome]
    exact h.settled.normalForm (StubFree.simplifyTimes k c s hc)

/-- Three wrappers, an empty list below two of them, and a branch that is
kept until what is beside it has become empty. -/
def wrappedPlan : Cursor :=
  wrapper { uid := 7 }
    (join { uid := 6 }
      [wrapper { uid := 1 } (listing ⟨{ uid := 0 }, [.id 4, .id 5], 0⟩),
        join { uid := 5 }
          [listing ⟨{ uid := 2 }, [.id 4], 0⟩,
            wrapper { uid := 4 } (listing ⟨{ uid := 3, tags := Tags.empty.add "x" }, [], 0⟩)]])

theorem wrappedPlan_normalizes :
    wrappedPlan.StubFree ∧ wrappedPlan.weight ≤ 9 ∧
      ((wrappedPlan.optimize 9).outcome ⟨8⟩).1.NormalForm := by
  have hc : wrappedPlan.StubFree := by
    intro h e cs hmem
    simp [wrappedPlan, nodes, allNodes] at hmem
  have hweight : wrappedPlan.weight ≤ 9 := by decide
  obtain ⟨-, hcap⟩ := optimize_normalizes wrappedPlan hc ⟨8⟩
  obtain ⟨-, -, -, -, hnormal⟩ := hcap 9 hweight
  exact ⟨hc, hweight, hnormal⟩

end CursorTree.Cursor
