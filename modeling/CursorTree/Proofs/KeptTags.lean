/-
CursorTree.Proofs.KeptTags — which tags are left when a tree is optimized.

A branch that nothing can pass is given up for an empty cursor, and the
tags of the branch are gathered in the registry of that cursor.  A join
gathers from the cursors right below it and no deeper.  What this amounts to
over all passes is said here without simplifying anything: a tree is dead
when an empty leaf lies below it, and `gathered` lists the registries that a
dead tree hands over.

## What is kept and what is lost

Passes work from the leaves up.  So a dead child has handed its registries
over before its parent gathers, and along a chain of dead joins nothing is
lost.  A child that is alive hands over the registry at its root alone, and
is then dropped with everything below it.  Hence no tag is lost exactly if
whatever is registered below such a child is registered at one of the
gathered nodes, too (`optimize_keeps_tags_iff`).  A tree that is alive stays
as it is.

One pass does all of it: a tree that was simplified once is settled.
-/
import CursorTree.Proofs.Conjunction
import CursorTree.Proofs.Passes
import CursorTree.Proofs.RowBindings
import CursorTree.Proofs.Simplification

namespace CursorTree

namespace Tags

theorem has_merge (t u : Tags) (n : String) : (t.merge u).Has n ↔ t.Has n ∨ u.Has n := by
  simp only [Has, merge, mem_dynamic_foldl_add, fixed_foldl_add, Dict.mem_keys_merge]
  tauto

theorem exists_has_singleton {t : Tags} {n : String} : (∃ u ∈ [t], u.Has n) ↔ t.Has n := by
  simp

end Tags

namespace Cursor

open Tags (exists_has_singleton)

mutual

/-- Trees with an empty leaf, which no value can pass. -/
def dead : Cursor → Bool
  | empty _ => true
  | listing l => l.values.isEmpty
  | join _ cs => anyDead cs
  | watch _ i => i.dead
  | inert _ | stub _ _ _ | wrapper _ _ | alternates _ _ _ _ => false

def anyDead : List Cursor → Bool
  | [] => false
  | c :: cs => c.dead || anyDead cs

end

mutual

/-- The registries that a tree hands over when it is dropped: the one at its
root and, if it is dead, those that its children have handed over to it. -/
def gathered : Cursor → List Tags
  | join h cs => if anyDead cs then h.tags :: gatheredAll cs else [h.tags]
  | watch _ i => i.gathered
  | c => [c.tags]

def gatheredAll : List Cursor → List Tags
  | [] => []
  | c :: cs => c.gathered ++ gatheredAll cs

end

/-- The registries whose tags are left of a tree. -/
def keptRegistries (c : Cursor) : List Tags := if c.dead then c.gathered else c.registries

/-! ## 1. The tags of a row -/

mutual

theorem Conjunctive.withoutAlternates : ∀ c : Cursor, c.Conjunctive → c.WithoutAlternates
  | empty _, _, n, hn | listing _, _, n, hn => by
      rw [List.mem_singleton.1 hn]
      exact id
  | join _ cs, hc, n, hn => by
      rcases List.mem_cons.1 hn with heq | hn
      · rw [heq]
        exact id
      · exact AllConjunctive.withoutAlternates cs hc.2 n hn

theorem AllConjunctive.withoutAlternates :
    ∀ cs : List Cursor, AllConjunctive cs → ∀ n ∈ allNodes cs, ¬ n.IsAlternates
  | [], _, _, hn => absurd hn List.not_mem_nil
  | c :: cs, hcs, n, hn => by
      rcases List.mem_append.1 hn with hn | hn
      · exact Conjunctive.withoutAlternates c hcs.1 n hn
      · exact AllConjunctive.withoutAlternates cs hcs.2 n hn

end

theorem mem_keys_foldl_write {ns : List Cursor} {n : String} (row : Row) :
    n ∈ (ns.foldl (fun r m => m.tags.write m.last r) row).keys ↔
      (∃ m ∈ ns, m.tags.Has n) ∨ n ∈ row.keys := by
  induction ns generalizing row with
  | nil => simp
  | cons m ns ih =>
    refine (ih (m.tags.write m.last row)).trans ?_
    simp only [Tags.mem_keys_write, List.mem_cons, exists_eq_or_imp, or_left_comm, or_assoc]

/-- Wherever its nodes stand, a tree writes the tags that they have. -/
theorem mem_keys_bindings {c : Cursor} (hc : c.WithoutAlternates) (n : String) :
    n ∈ c.bindings.val.keys ↔ ∃ t ∈ c.registries, t.Has n := by
  have hrow : c.bindings.val = c.nodes.foldl (fun r m => m.tags.write m.last r) .empty :=
    writeTags_eq_foldl c hc .empty
  rw [hrow, mem_keys_foldl_write]
  simp only [registries, List.mem_map, exists_exists_and_eq_and]
  exact or_iff_left List.not_mem_nil

/-! ## 2. Dead trees and live ones -/

theorem gathered_of_live {c : Cursor} (hc : c.Conjunctive) (h : c.dead = false) :
    c.gathered = [c.tags] := by
  cases c with
  | empty _ => rfl
  | listing _ => rfl
  | join g cs =>
    have hnone : ¬ anyDead cs = true := Bool.eq_false_iff.1 h
    rw [gathered, if_neg hnone]
    rfl
  | inert _ | stub _ _ _ | wrapper _ _ | alternates _ _ _ _ | watch _ _ => exact hc.elim

mutual

/-- What a tree hands over is registered in it. -/
theorem mem_registries_of_gathered :
    ∀ c : Cursor, c.Conjunctive → ∀ t ∈ c.gathered, t ∈ c.registries
  | empty _, _, _, ht | listing _, _, _, ht => ht
  | join h cs, hc, t, ht => by
      rw [gathered] at ht
      rw [registries, nodes, List.map_cons]
      split at ht
      next =>
        rcases List.mem_cons.1 ht with heq | ht
        · exact heq ▸ List.mem_cons_self
        · exact List.mem_cons_of_mem _ (mem_registries_of_gatheredAll cs hc.2 t ht)
      next => exact List.mem_singleton.1 ht ▸ List.mem_cons_self

theorem mem_registries_of_gatheredAll :
    ∀ cs : List Cursor, AllConjunctive cs → ∀ t ∈ gatheredAll cs, t ∈ (allNodes cs).map tags
  | [], _, _, ht => absurd ht List.not_mem_nil
  | c :: cs, hcs, t, ht => by
      rw [allNodes, List.map_append]
      rcases List.mem_append.1 ht with ht | ht
      · exact List.mem_append_left _ (mem_registries_of_gathered c hcs.1 t ht)
      · exact List.mem_append_right _ (mem_registries_of_gatheredAll cs hcs.2 t ht)

end

theorem mem_registries_of_kept {c : Cursor} (hc : c.Conjunctive) {t : Tags}
    (ht : t ∈ c.keptRegistries) : t ∈ c.registries := by
  rw [keptRegistries] at ht
  split at ht
  · exact mem_registries_of_gathered c hc t ht
  · exact ht

mutual

/-- A tree that is alive costs something, so no join is given up for it. -/
theorem cost_ne_zero_of_live : ∀ c : Cursor, c.Conjunctive → c.dead = false → c.cost ≠ .zero
  | empty _, _, h, _ => absurd h.symm Bool.false_ne_true
  | listing l, _, _, hzero => absurd (congrArg Cost.nextCost hzero) (by simp [cost, Cost.zero])
  | join _ cs, hc, h, hzero => by
      have hmem := zero_mem_of_join_eq_zero hzero
      rw [costs_eq_map, List.mem_map] at hmem
      obtain ⟨d, hd, hfree⟩ := hmem
      exact costs_ne_zero_of_live cs hc.2 h d hd hfree

theorem costs_ne_zero_of_live : ∀ cs : List Cursor, AllConjunctive cs → anyDead cs = false →
    ∀ c ∈ cs, c.cost ≠ .zero
  | [], _, _, _, hc => absurd hc List.not_mem_nil
  | d :: ds, hcs, h, c, hc => by
      rw [anyDead, Bool.or_eq_false_iff] at h
      rcases List.mem_cons.1 hc with heq | hc
      · rw [heq]
        exact cost_ne_zero_of_live d hcs.1 h.1
      · exact costs_ne_zero_of_live ds hcs.2 h.2 c hc

end

/-! ## 3. One simplification -/

/-- What becomes of a tree when it is simplified: itself if it is alive, and
otherwise an empty cursor.  Either way the root has the tags that the tree
hands over. -/
structure Reduced (c d : Cursor) : Prop where
  live : c.dead = false → d = c
  dead : c.dead = true → ∃ h, d = empty h
  tags : ∀ n, d.tags.Has n ↔ ∃ t ∈ c.gathered, t.Has n

theorem reduced_self {c : Cursor} (hc : c.Conjunctive) (h : c.dead = false) : Reduced c c where
  live _ := rfl
  dead hdead := absurd (h.symm.trans hdead) Bool.false_ne_true
  tags n := by rw [gathered_of_live hc h, exists_has_singleton]

theorem eq_of_all_live {cs ds : List Cursor} (h : List.Forall₂ Reduced cs ds)
    (hlive : anyDead cs = false) : ds = cs := by
  induction h with
  | nil => rfl
  | cons hd _ ih =>
    rw [anyDead, Bool.or_eq_false_iff] at hlive
    rw [hd.live hlive.1, ih hlive.2]

/-- Among simplified trees those that cost nothing are the dead ones. -/
theorem any_isZero_iff_anyDead {cs ds : List Cursor} (hcs : AllConjunctive cs)
    (h : List.Forall₂ Reduced cs ds) :
    (costs ds).any Cost.isZero = true ↔ anyDead cs = true := by
  rw [any_isZero_iff]
  constructor
  · rintro ⟨d, hd, hzero⟩
    by_contra hlive
    rw [Bool.not_eq_true] at hlive
    rw [eq_of_all_live h hlive] at hd
    exact costs_ne_zero_of_live cs hcs hlive d hd hzero
  · intro hdead
    induction h with
    | nil => exact absurd hdead Bool.false_ne_true
    | cons hd _ ih =>
      rw [anyDead, Bool.or_eq_true] at hdead
      rcases hdead with hhere | hthere
      · obtain ⟨g, heq⟩ := hd.dead hhere
        exact ⟨_, List.mem_cons_self, heq ▸ rfl⟩
      · obtain ⟨d, hmem, hzero⟩ := ih hcs.2 hthere
        exact ⟨d, List.mem_cons_of_mem _ hmem, hzero⟩

/-- A join gathers what its simplified children have at their roots, and that
is what the children hand over. -/
theorem has_gatheredTags {cs ds : List Cursor} (h : List.Forall₂ Reduced cs ds) (n : String) :
    ∀ own : Tags, (gatheredTags own ds).Has n ↔ own.Has n ∨ ∃ t ∈ gatheredAll cs, t.Has n := by
  induction h with
  | nil => intro own; simp [gatheredTags, gatheredAll]
  | cons hd _ ih =>
    intro own
    refine (ih (own.merge _)).trans ?_
    rw [Tags.has_merge, hd.tags, or_assoc]
    simp only [gatheredAll, List.mem_append, or_and_right, exists_or]

mutual

theorem reduced_simplify : ∀ (c : Cursor) (s : Supply), c.Conjunctive →
    Reduced c (c.simplify.outcome s).1.1
  | empty h, _, _ => ⟨fun _ => rfl, fun _ => ⟨h, rfl⟩, fun _ => exists_has_singleton.symm⟩
  | listing l, s, hc => by
      rw [simplify]
      split
      next hempty =>
        exact ⟨fun hlive => absurd (hlive.symm.trans hempty) Bool.false_ne_true,
          fun _ => ⟨_, rfl⟩, fun _ => exists_has_singleton.symm⟩
      next hfull => exact reduced_self hc (Bool.eq_false_iff.2 hfull)
  | join h cs, s, hc => by
      have hall := reducedAll_simplifyAll cs s hc.2
      simp only [simplify, Issuing.outcome_bind]
      split
      next hzero =>
        have hdead := (any_isZero_iff_anyDead hc.2 hall).1 hzero
        refine ⟨fun hlive => absurd (hlive.symm.trans hdead) Bool.false_ne_true,
          fun _ => ⟨_, rfl⟩, fun n => ?_⟩
        rw [gathered, if_pos hdead]
        simp only [List.mem_cons, exists_eq_or_imp]
        exact has_gatheredTags hall n h.tags
      next hcostly =>
        have hlive : anyDead cs = false :=
          Bool.eq_false_iff.2 fun hdead => hcostly ((any_isZero_iff_anyDead hc.2 hall).2 hdead)
        rw [eq_of_all_live hall hlive]
        exact reduced_self hc hlive

theorem reducedAll_simplifyAll : ∀ (cs : List Cursor) (s : Supply), AllConjunctive cs →
    List.Forall₂ Reduced cs ((simplifyAll cs).outcome s).1.1
  | [], _, _ => .nil
  | c :: cs, s, hcs =>
      .cons (reduced_simplify c s hcs.1) (reducedAll_simplifyAll cs _ hcs.2)

end

/-! ## 4. All passes -/

/-- What is left of a tree after one simplification stays as it is. -/
theorem Reduced.settled {c : Cursor} {s : Supply} (h : Reduced c (c.simplify.outcome s).1.1) :
    (c.simplify.outcome s).1.1.Settled := by
  cases hflag : (c.simplify.outcome s).1.2 with
  | false =>
    have hset := settled_of_unchanged c hflag
    rw [hset s]
    exact hset
  | true =>
    cases hdead : c.dead with
    | true =>
      obtain ⟨g, heq⟩ := h.dead hdead
      rw [heq]
      exact fun _ => rfl
    | false =>
      have hlt := weight_simplify_lt c s hflag
      rw [h.live hdead] at hlt
      exact absurd hlt (Nat.lt_irrefl _)

theorem optimize_eq_simplify {c : Cursor} (hc : c.Conjunctive) (cap : Nat) (s : Supply) :
    ((c.optimize cap).outcome s).1 = (c.simplify.outcome s).1.1 := by
  obtain ⟨left, hleft⟩ : ∃ left, max cap 1 = left + 1 :=
    Nat.exists_eq_add_one_of_ne_zero (by omega)
  rw [optimize, hleft]
  cases hflag : (c.simplify.outcome s).1.2 with
  | true =>
    rw [outcome_passes_changed hflag, outcome_passes_settled (reduced_simplify c s hc).settled]
  | false =>
    have hset := settled_of_unchanged c hflag
    rw [outcome_passes_settled hset, hset s]

theorem mem_keys_of_reduced {c d : Cursor} (hc : c.Conjunctive) (h : Reduced c d) (n : String) :
    n ∈ d.bindings.val.keys ↔ ∃ t ∈ c.keptRegistries, t.Has n := by
  rw [keptRegistries]
  cases hdead : c.dead with
  | false =>
    rw [h.live hdead]
    exact mem_keys_bindings (Conjunctive.withoutAlternates c hc) n
  | true =>
    obtain ⟨g, rfl⟩ := h.dead hdead
    have hempty : (empty g).Conjunctive := trivial
    rw [mem_keys_bindings (Conjunctive.withoutAlternates _ hempty), if_pos rfl, ← h.tags]
    simp [registries, nodes]

/-- An optimized tree writes the tags of the registries that are kept, which
are among the tags of the tree before.  All of them are left if the tree is
alive, or else if the registries that it hands over have every tag of the
tree; in no other case. -/
theorem optimize_keeps_tags_iff (c : Cursor) (hc : c.Conjunctive) (cap : Nat) (s : Supply) :
    let d := ((c.optimize cap).outcome s).1
    (∀ n, n ∈ d.bindings.val.keys ↔ ∃ t ∈ c.keptRegistries, t.Has n) ∧
      (∀ n, n ∈ d.bindings.val.keys → n ∈ c.bindings.val.keys) ∧
      ((∀ n, n ∈ d.bindings.val.keys ↔ n ∈ c.bindings.val.keys) ↔
        (c.dead = true → ∀ t ∈ c.registries, ∀ n, t.Has n → ∃ u ∈ c.gathered, u.Has n)) := by
  have hred := reduced_simplify c s hc
  have hbefore := mem_keys_bindings (Conjunctive.withoutAlternates c hc)
  rw [← optimize_eq_simplify hc cap s] at hred
  have hafter := mem_keys_of_reduced hc hred
  have hgain : ∀ n, n ∈ ((c.optimize cap).outcome s).1.bindings.val.keys →
      n ∈ c.bindings.val.keys := by
    intro n hn
    obtain ⟨t, ht, hhas⟩ := (hafter n).1 hn
    exact (hbefore n).2 ⟨t, mem_registries_of_kept hc ht, hhas⟩
  refine ⟨hafter, hgain, fun hsame hdead t ht n hhas => ?_, fun hall n => ⟨hgain n, fun hn => ?_⟩⟩
  · obtain ⟨u, hu, hkept⟩ := (hafter n).1 ((hsame n).2 ((hbefore n).2 ⟨t, ht, hhas⟩))
    rw [keptRegistries, if_pos hdead] at hu
    exact ⟨u, hu, hkept⟩
  · obtain ⟨t, ht, hhas⟩ := (hbefore n).1 hn
    refine (hafter n).2 ?_
    rw [keptRegistries]
    split
    next hdead => exact hall hdead t ht n hhas
    next => exact ⟨t, ht, hhas⟩

/-- An empty list at the end of a chain of joins, and beside it a join that is
alive.  The tag below that join is one of the empty list's, too. -/
def chainedTags : Cursor :=
  join { uid := 5, tags := Tags.empty.add "a" }
    [join { uid := 3, tags := Tags.empty.addFixed "b" (.id 7) }
        [listing ⟨{ uid := 0, tags := (Tags.empty.add "c").add "d" }, [], 0⟩,
          join { uid := 2, tags := Tags.empty.add "e" }
            [listing ⟨{ uid := 1, tags := Tags.empty.add "d" }, [.id 1], 0⟩]],
      listing ⟨{ uid := 4, tags := Tags.empty.add "f" }, [.id 1, .id 2], 0⟩]

theorem chainedTags_kept :
    chainedTags.Conjunctive ∧ chainedTags.dead = true ∧
      ∀ n, n ∈ ((chainedTags.optimize 10).outcome ⟨6⟩).1.bindings.val.keys ↔
        n ∈ chainedTags.bindings.val.keys := by
  have hc : chainedTags.Conjunctive := by
    simp [chainedTags, Conjunctive, AllConjunctive]
  refine ⟨hc, rfl, (optimize_keeps_tags_iff chainedTags hc 10 ⟨6⟩).2.2.2 fun _ => ?_⟩
  simp [chainedTags, registries, nodes, allNodes, gathered, gatheredAll, anyDead, dead, tags, head,
    Tags.Has, Tags.add, Tags.addFixed, Tags.append, Tags.empty, Dict.mem_keys]

/-- An empty cursor beside a join that is alive, with a tag below that join
and nowhere else. -/
def shelteredTag : Cursor :=
  join { uid := 3 }
    [join { uid := 1 } [listing ⟨{ uid := 0, tags := Tags.empty.add "x" }, [.id 1], 0⟩],
      empty { uid := 2 }]

/-- Optimizing loses that tag. -/
theorem shelteredTag_lost :
    shelteredTag.Conjunctive ∧ "x" ∈ shelteredTag.bindings.val.keys ∧
      "x" ∉ ((shelteredTag.optimize 10).outcome ⟨4⟩).1.bindings.val.keys := by
  have hc : shelteredTag.Conjunctive := by
    simp [shelteredTag, Conjunctive, AllConjunctive]
  exact ⟨hc, by decide, by decide⟩

end Cursor

end CursorTree
