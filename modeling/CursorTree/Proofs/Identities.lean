/-
CursorTree.Proofs.Identities — the identities of the nodes of a tree, and
what becomes of them.

`uids` lists the identities of a tree in the order in which its nodes are
made: what is below a node before the node, and a cursor with alternates
before the list inside it.  A watch has no identity of its own.

* A traversal leaves the list as it is (`uids_move`).
* A copy has the identities it received, in that order (`yields_copying`).
* A tree made to order has those of the trees it was built on and those it
  received (`yields_building`).
* Optimizing puts a child or a fresh empty cursor in the place of a node, as
  often as it likes, and touches no other node (`yields_optimizing`).
-/
import CursorTree.Proofs.Asking
import CursorTree.Proofs.Resetting
import Mathlib.Data.List.Perm.Subperm

namespace CursorTree

namespace Cursor

mutual

/-- The identities of a tree in the order in which its nodes are made. -/
def uids : Cursor → List Uid
  | empty h | inert h => [h.uid]
  | listing l => [l.head.uid]
  | stub h _ cs | join h cs => allUids cs ++ [h.uid]
  | wrapper h i => i.uids ++ [h.uid]
  | alternates h l _ _ => [h.uid, l.head.uid]
  | watch _ i => i.uids

def allUids : List Cursor → List Uid
  | [] => []
  | c :: cs => c.uids ++ allUids cs

end

/-! ## 1. Trees as lists of identities -/

theorem allUids_eq_flatMap (cs : List Cursor) : allUids cs = cs.flatMap uids := by
  induction cs with
  | nil => rfl
  | cons c cs ih => rw [allUids, ih, List.flatMap_cons]

@[simp] theorem allUids_append (cs ds : List Cursor) :
    allUids (cs ++ ds) = allUids cs ++ allUids ds := by
  simp only [allUids_eq_flatMap, List.flatMap_append]

theorem allUids_perm {cs ds : List Cursor} (h : cs.Perm ds) : (allUids cs).Perm (allUids ds) := by
  rw [allUids_eq_flatMap, allUids_eq_flatMap]
  exact h.flatMap_right uids

/-- Registering tags changes no identity. -/
@[simp] theorem uids_retag (f : Tags → Tags) (c : Cursor) : (c.retag f).uids = c.uids := by
  fun_induction head c with
  | case1 | case2 | case3 | case4 | case5 | case6 | case7 => rfl
  | case8 _ i ih => exact ih

mutual

theorem uids_rewound : ∀ c : Cursor, c.rewound.uids = c.uids
  | empty _ | listing _ | inert _ | stub _ _ _ | wrapper _ _ | alternates _ _ _ _ => rfl
  | join h cs => by
      rw [rewound, uids, uids, allUids_rewoundAll cs]
      rfl
  | watch _ i => uids_rewound i

theorem allUids_rewoundAll : ∀ cs : List Cursor, allUids (rewoundAll cs) = allUids cs
  | [] => rfl
  | c :: cs => by rw [rewoundAll, allUids, allUids, uids_rewound c, allUids_rewoundAll cs]

end

/-- A move changes no identity. -/
@[simp] theorem uids_move (c : Cursor) (m : Move) : (c.move m).val.uids = c.uids := by
  rw [← uids_rewound, rewound_move, uids_rewound]

mutual

/-- The identity of every node of a tree is among those of the tree. -/
theorem uid_nodes_subperm : ∀ c : Cursor, (c.nodes.map uid).Subperm c.uids
  | empty h | listing l | inert h => List.Subperm.refl _
  | alternates h l n k => by
      exact (List.sublist_append_left [h.uid] [l.head.uid]).subperm
  | stub h e cs | join h cs => by
      rw [nodes, uids, List.map_cons]
      have hbelow := (List.subperm_cons h.uid).2 (uid_allNodes_subperm cs)
      exact hbelow.trans (List.perm_append_singleton h.uid _).symm.subperm
  | wrapper h i => by
      rw [nodes, uids, List.map_cons]
      have hbelow := (List.subperm_cons h.uid).2 (uid_nodes_subperm i)
      exact hbelow.trans (List.perm_append_singleton h.uid _).symm.subperm
  | watch w i => uid_nodes_subperm i

theorem uid_allNodes_subperm : ∀ cs : List Cursor,
    ((allNodes cs).map uid).Subperm (allUids cs)
  | [] => List.Subperm.refl _
  | c :: cs => by
      rw [allNodes, allUids, List.map_append]
      exact (uid_nodes_subperm c).append (uid_allNodes_subperm cs)

end

/-! ## 2. Copies -/

mutual

/-- A copy has the identities it received, one for each of the source. -/
theorem yields_copying : ∀ c : Cursor,
    c.copying.Yields fun us d => d.uids = us ∧ us.length = c.uids.length
  | empty h | listing l | inert h => fun _ => ⟨rfl, rfl⟩
  | alternates h l n k => fun _ _ => ⟨rfl, rfl⟩
  | stub h e cs | join h cs => by
      rw [copying]
      refine (yields_copyingAll cs).bind ?_
      rintro us ds ⟨huids, hlength⟩
      simp [uids, huids, hlength]
  | wrapper h i => by
      rw [copying]
      refine (yields_copying i).bind ?_
      rintro us d ⟨huids, hlength⟩
      simp [uids, huids, hlength]
  | watch w i => by
      rw [copying]
      refine (yields_copying i).bind ?_
      rintro us d ⟨huids, hlength⟩
      simp [uids, huids, hlength]

theorem yields_copyingAll : ∀ cs : List Cursor,
    (copyingAll cs).Yields fun us ds => allUids ds = us ∧ us.length = (allUids cs).length
  | [] => ⟨rfl, rfl⟩
  | c :: cs => by
      rw [copyingAll]
      refine (yields_copying c).bind ?_
      rintro us d ⟨huids, hlength⟩
      refine (yields_copyingAll cs).bind ?_
      rintro vs ds ⟨huidsAll, hlengthAll⟩
      simp [allUids, huids, hlength, huidsAll, hlengthAll]

end

/-! ## 3. Rewriting -/

/-- One node of a tree gives way: a wrapper to what is inside it, a list
without values and a join that nothing passes to an empty cursor.  The
identities listed are those issued for it; every other node stays. -/
inductive Replaces : List Uid → Cursor → Cursor → Prop where
  | unwrapped (h : Head) (inner : Cursor) : Replaces [] (wrapper h inner) inner
  | emptied (u : Uid) (l : Listing) : l.values = [] →
      Replaces [u] (listing l) (empty { uid := u, tags := l.head.tags })
  | collapsed (u : Uid) (h : Head) (cs : List Cursor) : (costs cs).any Cost.isZero →
      Replaces [u] (join h cs) (empty { uid := u, tags := gatheredTags h.tags cs })
  | underJoin (h : Head) (left right : List Cursor) {us : List Uid} {c d : Cursor} :
      Replaces us c d → Replaces us (join h (left ++ c :: right)) (join h (left ++ d :: right))
  | underWatch (w : String) {us : List Uid} {c d : Cursor} :
      Replaces us c d → Replaces us (watch w c) (watch w d)

/-- Nodes give way one after the other. -/
inductive Rewritten : List Uid → Cursor → Cursor → Prop where
  | refl (c : Cursor) : Rewritten [] c c
  | tail {us vs : List Uid} {c d e : Cursor} :
      Rewritten us c d → Replaces vs d e → Rewritten (us ++ vs) c e

theorem Replaces.rewritten {us : List Uid} {c d : Cursor} (h : Replaces us c d) :
    Rewritten us c d := .tail (.refl c) h

theorem Rewritten.trans {us vs : List Uid} {c d e : Cursor} (hcd : Rewritten us c d)
    (hde : Rewritten vs d e) : Rewritten (us ++ vs) c e := by
  induction hde with
  | refl d => simpa using hcd
  | tail _ hlast ih => simpa using (ih hcd).tail hlast

theorem Rewritten.underJoin (h : Head) (left right : List Cursor) {us : List Uid} {c d : Cursor}
    (hcd : Rewritten us c d) :
    Rewritten us (join h (left ++ c :: right)) (join h (left ++ d :: right)) := by
  induction hcd with
  | refl c => exact .refl _
  | tail _ hlast ih => exact ih.tail (.underJoin h left right hlast)

theorem Rewritten.underWatch (w : String) {us : List Uid} {c d : Cursor} (hcd : Rewritten us c d) :
    Rewritten us (watch w c) (watch w d) := by
  induction hcd with
  | refl c => exact .refl _
  | tail _ hlast ih => exact ih.tail (.underWatch w hlast)

mutual

theorem yields_simplifying : ∀ c : Cursor, c.simplifying.Yields fun us p => Rewritten us c p.1
  | empty h | inert h | stub h e cs | alternates h l n k => .refl _
  | wrapper h i => (Replaces.unwrapped h i).rewritten
  | listing l => by
      rw [simplifying]
      split
      next hempty => exact fun u => (Replaces.emptied u l (List.isEmpty_iff.1 hempty)).rewritten
      next => exact .refl _
  | join h cs => by
      rw [simplifying]
      refine (yields_simplifyingAll cs).bind ?_
      rintro us ⟨ds, changed⟩ hcs
      have hchildren : Rewritten us (join h cs) (join h ds) := hcs h []
      simp only
      split
      next hzero => exact fun u => hchildren.tail (.collapsed u h ds hzero)
      next => simpa using hchildren
  | watch w i => by
      rw [simplifying]
      refine (yields_simplifying i).bind ?_
      rintro us ⟨j, changed⟩ hi
      simpa using hi.underWatch w

/-- The children of a join are rewritten from left to right. -/
theorem yields_simplifyingAll : ∀ cs : List Cursor, (simplifyingAll cs).Yields fun us p =>
    ∀ (h : Head) (left : List Cursor), Rewritten us (join h (left ++ cs)) (join h (left ++ p.1))
  | [] => fun _ _ => .refl _
  | c :: cs => by
      rw [simplifyingAll]
      refine (yields_simplifying c).bind ?_
      rintro us ⟨d, here⟩ hc
      refine (yields_simplifyingAll cs).bind ?_
      rintro vs ⟨ds, there⟩ hcs
      simp only [Asking.yields_pure, List.append_nil]
      intro h left
      have hrest := hcs h (left ++ [d])
      simp only [List.append_assoc, List.singleton_append] at hrest
      exact (hc.underJoin h left cs).trans hrest

end

theorem yields_passing (left : Nat) : ∀ c : Cursor,
    (passing left c).Yields fun us d => Rewritten us c d := by
  induction left with
  | zero => exact .refl
  | succ left ih =>
    intro c
    rw [passing]
    refine (yields_simplifying c).bind ?_
    rintro us ⟨d, changed⟩ hd
    cases changed with
    | true => exact (ih d).imp fun vs e he => hd.trans he
    | false => simpa using hd

/-- Optimizing rewrites nodes and does nothing else to a tree. -/
theorem yields_optimizing (cap : Nat) (c : Cursor) :
    (c.optimizing cap).Yields fun us d => Rewritten us c d :=
  yields_passing (max cap 1) c

/-- After a node gave way a tree has identities it had before and those
issued for it, none more often than there. -/
theorem Replaces.uids_subperm {us : List Uid} {c d : Cursor} (h : Replaces us c d) :
    d.uids.Subperm (c.uids ++ us) := by
  rw [List.subperm_iff_count]
  intro u
  induction h with
  | unwrapped h inner | emptied v l _ | collapsed v h cs _ =>
    simp only [uids, List.count_append]
    omega
  | underJoin h left right _ ih =>
    simp only [uids, allUids, allUids_append, List.count_append] at ih ⊢
    omega
  | underWatch w _ ih => exact ih

theorem Rewritten.uids_subperm {us : List Uid} {c d : Cursor} (h : Rewritten us c d) :
    d.uids.Subperm (c.uids ++ us) := by
  induction h with
  | refl c =>
    rw [List.append_nil]
  | @tail us vs c d e _ hlast ih =>
    rw [← List.append_assoc]
    exact hlast.uids_subperm.trans ((List.subperm_append_right vs).2 ih)

end Cursor

/-! ## 4. Trees made to order -/

namespace Session

open Cursor

theorem yields_wrapping : ∀ (depth : Nat) (c : Cursor),
    (wrapping depth c).Yields fun us d => d.uids = c.uids ++ us
  | 0, c => by simp [wrapping]
  | depth + 1, c => by
      rw [wrapping, Asking.yields_fresh_bind]
      intro u
      exact (yields_wrapping depth _).imp fun us d hd => by simp [hd, uids]

namespace Spec

mutual

/-- A tree made to order has the identities of the trees it was built on and
those it received. -/
theorem yields_building (held : String → Cursor) : ∀ spec : Spec,
    (spec.building held).Yields fun us c =>
      c.uids.Perm (allUids (spec.slots.map held) ++ us)
  | empty d | listing vs d | inert d | bare d => fun _ => .refl _
  | alternates vs n d => fun _ _ => .refl _
  | slot name d => by
      simp [building, slots, allUids]
  | stub e cs d | join cs d => by
      rw [building]
      refine (yields_buildingAll held cs).bind ?_
      intro us ds hds
      simp only [Asking.yields_fresh_bind, Asking.yields_pure, uids, slots]
      intro u
      simpa using hds.append_right [u]
  | wrapper depth i d => by
      rw [building]
      refine (yields_building held i).bind ?_
      intro us c hc
      refine (yields_wrapping depth c).bind ?_
      intro vs e he
      simpa [he, slots] using hc.append_right vs
  | watch w i d => by
      rw [building]
      refine (yields_building held i).bind ?_
      intro us c hc
      simpa [uids, slots] using hc

theorem yields_buildingAll (held : String → Cursor) : ∀ specs : List Spec,
    (buildingAll held specs).Yields fun us cs =>
      (allUids cs).Perm (allUids ((allSlots specs).map held) ++ us)
  | [] => .refl _
  | spec :: specs => by
      rw [buildingAll]
      refine (yields_building held spec).bind ?_
      intro us c hc
      refine (yields_buildingAll held specs).bind ?_
      intro vs cs hcs
      simp only [Asking.yields_pure, List.append_nil]
      rw [List.perm_iff_count] at hc hcs ⊢
      intro u
      have hhere := hc u
      have hthere := hcs u
      simp only [allUids, allSlots, List.map_append, allUids_append, List.count_append]
        at hhere hthere ⊢
      omega

end

end Spec

end Session

end CursorTree
