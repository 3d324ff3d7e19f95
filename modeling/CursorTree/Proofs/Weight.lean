/-
CursorTree.Proofs.Weight — simplifying once keeps a tree or makes it lighter.

The weight of a tree is the number of its nodes plus the number of its
empty lists.  Nodes alone would not do: an empty list gives way to an empty
cursor, one node for another.

Two facts about a single simplification, each by recursion on the tree.
When it reports no change, nothing has happened: the tree is the same, no
identity was issued, and this is so whatever identities there are left
(`settled_of_unchanged`).  When it reports a change, the tree has become
lighter (`weight_simplify_lt`), a join also when only something below it
was replaced, and even when several of its branches were at once.
-/
import CursorTree.Cursor.Simplify
import CursorTree.Proofs.Nodes

namespace CursorTree.Cursor

def isEmptyList : Cursor → Bool
  | listing l => l.values.isEmpty
  | _ => false

/-- How many nodes there are, with empty lists counted twice. -/
def weigh (ns : List Cursor) : Nat := ns.length + ns.countP isEmptyList

def weight (c : Cursor) : Nat := weigh c.nodes

@[simp] theorem weigh_append (ns ms : List Cursor) : weigh (ns ++ ms) = weigh ns + weigh ms := by
  simp only [weigh, List.length_append, List.countP_append]
  omega

theorem length_le_weigh (ns : List Cursor) : ns.length ≤ weigh ns :=
  Nat.le_add_right _ _

theorem weigh_allNodes_pos {cs : List Cursor} (h : cs ≠ []) : 0 < weigh (allNodes cs) := by
  cases cs with
  | nil => exact absurd rfl h
  | cons c cs =>
    have hc : 0 < c.nodes.length := List.length_pos_iff.2 (nodes_ne_nil c)
    have hlen := length_le_weigh c.nodes
    rw [allNodes, weigh_append]
    omega

theorem weight_join (h : Head) (cs : List Cursor) :
    (join h cs).weight = 1 + weigh (allNodes cs) := by
  rw [weight, nodes, ← List.singleton_append, weigh_append]
  rfl

theorem weight_wrapper (h : Head) (i : Cursor) : (wrapper h i).weight = 1 + i.weight := by
  rw [weight, nodes, ← List.singleton_append, weigh_append]
  rfl

/-! ## 1. No change -/

/-- Simplifying leaves a tree and the supply as they are. -/
def Settled (c : Cursor) : Prop := ∀ s : Supply, c.simplify.outcome s = ((c, false), s)

mutual

theorem settled_of_unchanged : ∀ (c : Cursor) {s : Supply},
    (c.simplify.outcome s).1.2 = false → c.Settled
  | empty _, _, _ | inert _, _, _ | stub _ _ _, _, _ | alternates _ _ _ _, _, _ => fun _ => rfl
  | wrapper _ _, _, h => absurd h.symm Bool.false_ne_true
  | listing l, s, h => by
      intro s'
      rw [simplify] at h ⊢
      split at h
      next => exact absurd h.symm Bool.false_ne_true
      next hfull => rw [if_neg hfull]; rfl
  | join g cs, s, h => by
      simp only [simplify, Issuing.outcome_bind] at h
      split at h
      next => exact absurd h.symm Bool.false_ne_true
      next hnone =>
        intro s'
        have hall := settledAll_of_unchanged cs h
        rw [hall s] at hnone
        simp only [simplify, Issuing.outcome_bind, hall s', if_neg hnone]
        rfl
  | watch w i, s, h => by
      intro s'
      have hi := settled_of_unchanged i h s'
      simp only [simplify, Issuing.outcome_bind, Issuing.outcome_liftM, hi]
      rfl

theorem settledAll_of_unchanged : ∀ (cs : List Cursor) {s : Supply},
    ((simplifyAll cs).outcome s).1.2 = false →
      ∀ s' : Supply, (simplifyAll cs).outcome s' = ((cs, false), s')
  | [], _, _ => fun _ => rfl
  | c :: cs, s, h => by
      simp only [simplifyAll, Issuing.outcome_bind, Issuing.outcome_pure, Bool.or_eq_false_iff] at h
      intro s'
      have hhere := settled_of_unchanged c h.1
      have hthere := settledAll_of_unchanged cs h.2
      simp only [simplifyAll, Issuing.outcome_bind, hhere s', hthere s']
      rfl

end

/-! ## 2. A change -/

mutual

/-- A change makes a tree lighter. -/
theorem weight_simplify_lt : ∀ (c : Cursor) (s : Supply),
    (c.simplify.outcome s).1.2 = true → (c.simplify.outcome s).1.1.weight < c.weight
  | empty _, _, h | inert _, _, h | stub _ _ _, _, h | alternates _ _ _ _, _, h =>
      absurd h Bool.false_ne_true
  | wrapper g i, s, _ => by
      rw [weight_wrapper]
      exact Nat.lt_add_of_pos_left Nat.one_pos
  | listing l, s, h => by
      rw [simplify] at h ⊢
      split at h
      next hempty =>
        have htwo : (listing l).weight = 2 := by
          simp [weight, nodes, weigh, isEmptyList, hempty]
        rw [if_pos hempty, htwo]
        exact Nat.one_lt_two
      next => exact absurd h Bool.false_ne_true
  | join g cs, s, h => by
      have hall := weigh_simplifyAll_lt cs s
      simp only [simplify, Issuing.outcome_bind] at h ⊢
      split at h
      next hzero =>
        -- the join collapses: some child stood below it before, too
        have hpos : 0 < weigh (allNodes cs) := by
          cases hflag : ((simplifyAll cs).outcome s).1.2 with
          | true => exact Nat.lt_of_le_of_lt (Nat.zero_le _) (hall hflag)
          | false =>
            rw [settledAll_of_unchanged cs hflag s] at hzero
            refine weigh_allNodes_pos fun hnil => ?_
            rw [hnil] at hzero
            exact absurd hzero Bool.false_ne_true
        rw [if_pos hzero, weight_join]
        exact Nat.lt_add_of_pos_right hpos
      next hnone =>
        rw [if_neg hnone, weight_join]
        refine Nat.lt_of_le_of_lt (Nat.le_of_eq (weight_join _ _)) ?_
        exact Nat.add_lt_add_left (hall h) 1
  | watch w i, s, h => weight_simplify_lt i s h

theorem weigh_simplifyAll_lt : ∀ (cs : List Cursor) (s : Supply),
    ((simplifyAll cs).outcome s).1.2 = true →
      weigh (allNodes ((simplifyAll cs).outcome s).1.1) < weigh (allNodes cs)
  | [], _, h => absurd h Bool.false_ne_true
  | c :: cs, s, h => by
      have hhere := weight_simplify_lt c s
      have hthere := weigh_simplifyAll_lt cs (c.simplify.outcome s).2
      simp only [simplifyAll, Issuing.outcome_bind, Issuing.outcome_pure, allNodes, weigh_append,
        Bool.or_eq_true] at h ⊢
      -- what is not replaced is the same as before and weighs as much
      have hhere_le : (c.simplify.outcome s).1.1.weight ≤ c.weight := by
        cases hc : (c.simplify.outcome s).1.2 with
        | true => exact Nat.le_of_lt (hhere hc)
        | false => exact Nat.le_of_eq (congrArg (·.1.1.weight) (settled_of_unchanged c hc s))
      have hthere_le : weigh (allNodes ((simplifyAll cs).outcome (c.simplify.outcome s).2).1.1) ≤
          weigh (allNodes cs) := by
        cases hcs : ((simplifyAll cs).outcome (c.simplify.outcome s).2).1.2 with
        | true => exact Nat.le_of_lt (hthere hcs)
        | false =>
          have hsame := settledAll_of_unchanged cs hcs (c.simplify.outcome s).2
          exact Nat.le_of_eq (congrArg (fun r => weigh (allNodes r.1.1)) hsame)
      rcases h with h | h
      · exact Nat.add_lt_add_of_lt_of_le (hhere h) hthere_le
      · exact Nat.add_lt_add_of_le_of_lt hhere_le (hthere h)

end

end CursorTree.Cursor
