/-
CursorTree.Proofs.Callers — one supply of identities, any number of callers.

Callers make trees, copy them, optimize them and traverse them, all at the
same time.  A making, a copy or an optimization asks for its identities one
by one, and between two of its requests any other caller may be served.
`World` is what all of them share: the supply, the trees at rest, the
operations under way and who received what.

No rule about who works on what is needed beyond this: a tree goes into an
operation at most once, and the operation gives back one tree.  So the
invariant is an account (`Accounted`).  The identities in use, in the trees
at rest and in the hands of the callers, are among those served, none more
often than it was served.  It says nothing about how large the supply has
grown; that enters at the end only, where served identities are different
from one another as long as a word can tell them apart
(`identities_unique_and_stable`).
-/
import CursorTree.Proofs.Identities
import Mathlib.Algebra.Ring.Nat

namespace CursorTree

open Cursor

/-- An operation that makes cursors. -/
inductive Deed where
  /-- Make a tree to order, with trees to build on. -/
  | make (spec : Session.Spec) (held : String → Cursor)
  /-- Make an empty cursor with some tags. -/
  | empty (tags : Tags)
  /-- Copy a cursor, be it a tree, a node of one or neither. -/
  | copy (source : Cursor)
  | optimize (cap : Nat) (root : Cursor)

namespace Deed

/-- The trees that are used up. -/
def taken : Deed → List Cursor
  | make spec held => spec.slots.map held
  | empty _ | copy _ => []
  | optimize _ root => [root]

/-- The requests of the operation, and the tree it gives back. -/
def requests : Deed → Asking Cursor
  | make spec held => spec.building held
  | empty tags => emptying tags
  | copy source => source.copying
  | optimize cap root => root.optimizing cap

/-- What the operation gives back when it has received some identities.  An
optimization puts a child or a fresh empty cursor in the place of nodes; all
other identities stay. -/
def Results : Deed → List Uid → Cursor → Prop
  | make spec held, us, c => c.uids.Perm (allUids (spec.slots.map held) ++ us)
  | empty _, us, c => c.uids = us
  | copy source, us, c => c.uids = us ∧ us.length = source.uids.length
  | optimize _ root, us, c => Rewritten us root c

/-- When nobody else is served meanwhile, the operation is the one on a
session or on a supply. -/
def Uninterrupted : Deed → Prop
  | make spec held => ∀ s : Session, s.Offers held spec.slots →
      Session.Makes spec.build s ((requests (make spec held)).run s.supply).1
        (s.spent spec.slots ((requests (make spec held)).run s.supply).2)
  | empty tags => ∀ s : Supply, (requests (empty tags)).run s = (emptyWith tags).outcome s
  | copy source => ∀ s : Supply, (requests (copy source)).run s = source.copy.outcome s
  | optimize cap root => ∀ s : Supply,
      (requests (optimize cap root)).run s = (root.optimize cap).outcome s

end Deed

/-- An operation under way: for whom, and how far it is. -/
structure Task where
  caller : Nat
  deed : Deed
  received : List Uid := []
  rest : Asking Cursor := deed.requests

/-- The identities in the hands of a caller. -/
def Task.inUse (t : Task) : List Uid := allUids t.deed.taken ++ t.received

/-- What all callers share. -/
structure World where
  supply : Supply := {}
  /-- The trees that no operation is working on. -/
  trees : List Cursor := []
  tasks : List Task := []
  /-- Who received which identity, in order. -/
  served : List (Nat × Uid) := []

namespace World

/-- The identities of all trees, and of those that are being made. -/
def inUse (w : World) : List Uid := allUids w.trees ++ w.tasks.flatMap Task.inUse

/-- What a caller has received, in order. -/
def received (w : World) (caller : Nat) : List Uid :=
  (w.served.filter fun s => s.1 = caller).map (·.2)

/-- One tree at rest makes a move. -/
inductive Traverses : World → World → Prop where
  | move (w : World) (m : Move) (c : Cursor) (left right : List Cursor) :
      w.trees = left ++ c :: right →
      Traverses w { w with trees := left ++ (c.move m).val :: right }

/-- One step of one caller. -/
inductive Step : World → World → Prop where
  /-- A caller who is not at work begins, and takes the trees it needs. -/
  | start (w : World) (caller : Nat) (deed : Deed) (others : List Cursor) :
      (∀ t ∈ w.tasks, t.caller ≠ caller) → w.trees.Perm (deed.taken ++ others) →
      Step w { w with
        trees := others
        tasks := { caller, deed } :: w.tasks }
  /-- A request is served. -/
  | issue (w : World) (t : Task) (next : Uid → Asking Cursor) (before after : List Task) :
      w.tasks = before ++ t :: after → t.rest = .ask next →
      Step w { w with
        supply := w.supply.issue.2
        tasks := before ++ { t with
          received := t.received ++ [w.supply.issue.1]
          rest := next w.supply.issue.1 } :: after
        served := w.served ++ [(t.caller, w.supply.issue.1)] }
  /-- An operation without further requests gives back its tree. -/
  | finish (w : World) (t : Task) (c : Cursor) (before after : List Task) :
      w.tasks = before ++ t :: after → t.rest = .done c →
      Step w { w with trees := c :: w.trees, tasks := before ++ after }
  | traverse (w w' : World) : Traverses w w' → Step w w'
  | drop (w : World) (c : Cursor) (left right : List Cursor) :
      w.trees = left ++ c :: right → Step w { w with trees := left ++ right }

/-- What can be reached from a fresh supply. -/
inductive Reachable : World → Prop where
  | fresh : Reachable {}
  | step {w w' : World} : Reachable w → Step w w' → Reachable w'

/-- Identities that are what they should be. -/
structure Identified (w : World) : Prop where
  /-- Those issued are 0, 1, 2 and so on, each once. -/
  issued : w.served.map (·.2.toNat) = List.range w.supply.issued
  /-- They are those of the supply that serves the same callers in turn. -/
  turns : Supply.serve {} (w.served.map (·.1)) = (w.served, w.supply)
  /-- Every caller receives ever greater ones. -/
  increasing : ∀ caller, (w.received caller).Pairwise (· < ·)
  /-- All trees have different ones, also those in the hands of callers. -/
  distinct : w.inUse.Nodup
  /-- All nodes of the trees at rest have different ones. -/
  nodes : ((allNodes w.trees).map uid).Nodup
  below : ∀ u ∈ w.inUse, u.toNat < w.supply.issued
  /-- What is about to be given back is what it should be. -/
  results : ∀ t ∈ w.tasks, ∀ c, t.rest = .done c → t.deed.Results t.received c

/-! ## 1. What the operations give back -/

theorem yields_requests (deed : Deed) : deed.requests.Yields deed.Results := by
  cases deed with
  | make spec held => exact spec.yields_building held
  | empty tags => exact fun u => rfl
  | copy source => exact yields_copying source
  | optimize cap root => exact yields_optimizing cap root

/-- The tree given back has identities of the trees used up and those
received, none more often than there. -/
theorem uids_subperm_of_results {deed : Deed} {us : List Uid} {c : Cursor}
    (h : deed.Results us c) : c.uids.Subperm (allUids deed.taken ++ us) := by
  cases deed with
  | make spec held => exact List.Perm.subperm h
  | empty tags =>
    replace h : c.uids = us := h
    exact h ▸ List.Subperm.refl _
  | copy source =>
    obtain ⟨rfl, -⟩ := h
    exact List.Subperm.refl _
  | optimize cap root =>
    replace h : Rewritten us root c := h
    simpa [Deed.taken, allUids] using h.uids_subperm

theorem uninterrupted (deed : Deed) : deed.Uninterrupted := by
  cases deed with
  | make spec held => exact spec.build_eq_building held
  | empty tags => exact run_emptying tags
  | copy source => exact run_copying source
  | optimize cap root => exact run_optimizing cap root

/-! ## 2. The supply -/

theorem serve_concat (caller : Nat) : ∀ (callers : List Nat) (s : Supply),
    s.serve (callers ++ [caller]) =
      ((s.serve callers).1 ++ [(caller, (s.serve callers).2.issue.1)],
        (s.serve callers).2.issue.2)
  | [], s => rfl
  | c :: callers, s => by
      simp [Supply.serve, serve_concat caller callers]

/-- A supply serves consecutive numbers, whoever asks. -/
theorem serve_spec : ∀ (callers : List Nat) (s : Supply),
    (s.serve callers).1.map (·.2) = (List.range' s.issued callers.length).map UInt64.ofNat ∧
      (s.serve callers).2 = ⟨s.issued + callers.length⟩
  | [], s => ⟨rfl, rfl⟩
  | c :: callers, s => by
      obtain ⟨huids, hsupply⟩ := serve_spec callers s.issue.2
      simp only [Supply.serve, List.map_cons, huids, hsupply, List.length_cons, List.range'_succ]
      simp [Supply.issue, Nat.add_assoc, Nat.add_comm 1]

/-! ## 3. The account -/

/-- What is in use was served, and what is under way keeps to that. -/
structure Accounted (w : World) : Prop where
  turns : Supply.serve {} (w.served.map (·.1)) = (w.served, w.supply)
  inUse : w.inUse.Subperm (w.served.map (·.2))
  pending : ∀ t ∈ w.tasks, t.rest.Yields fun us c => t.deed.Results (t.received ++ us) c

theorem Accounted.results {w : World} (h : w.Accounted) {t : Task} (ht : t ∈ w.tasks) {c : Cursor}
    (hrest : t.rest = .done c) : t.deed.Results t.received c := by
  have hpending := h.pending t ht
  rw [hrest] at hpending
  simpa [Asking.Yields] using hpending

theorem accounted_fresh : Accounted {} where
  turns := rfl
  inUse := List.Subperm.refl []
  pending := fun _ ht => absurd ht List.not_mem_nil

theorem Accounted.start {w : World} (h : w.Accounted) {caller : Nat} {deed : Deed}
    {others : List Cursor} (found : w.trees.Perm (deed.taken ++ others)) :
    Accounted { w with
      trees := others
      tasks := { caller, deed } :: w.tasks } where
  turns := h.turns
  inUse := by
    -- The trees taken go from those at rest into the hands of the caller.
    have hinUse := h.inUse
    have htrees := allUids_perm found
    rw [List.subperm_iff_count] at hinUse ⊢
    rw [List.perm_iff_count] at htrees
    intro u
    have hu := hinUse u
    have hmoved := htrees u
    simp only [World.inUse, Task.inUse, List.flatMap_cons, List.append_nil, List.count_append,
      allUids_append] at hu hmoved ⊢
    omega
  pending := by
    intro t ht
    rcases List.mem_cons.1 ht with rfl | ht
    · exact yields_requests deed
    · exact h.pending t ht

theorem Accounted.issue {w : World} (h : w.Accounted) {t : Task} {next : Uid → Asking Cursor}
    {before after : List Task} (htasks : w.tasks = before ++ t :: after)
    (hrest : t.rest = .ask next) :
    Accounted { w with
      supply := w.supply.issue.2
      tasks := before ++ { t with
        received := t.received ++ [w.supply.issue.1]
        rest := next w.supply.issue.1 } :: after
      served := w.served ++ [(t.caller, w.supply.issue.1)] } where
  turns := by
    simp [serve_concat, h.turns]
  inUse := by
    -- One identity more was served, and one more is in the hands of the caller.
    have hinUse := h.inUse
    rw [List.subperm_iff_count] at hinUse ⊢
    intro u
    have hu := hinUse u
    simp only [World.inUse, Task.inUse, htasks, List.flatMap_append, List.flatMap_cons,
      List.count_append, List.map_append, List.map_cons, List.map_nil] at hu ⊢
    omega
  pending := by
    intro t' ht'
    have hpending := h.pending t (by simp [htasks])
    rw [hrest] at hpending
    rcases List.mem_append.1 ht' with hin | hin
    · exact h.pending t' (by simp [htasks, hin])
    · rcases List.mem_cons.1 hin with rfl | hin
      · simpa using hpending w.supply.issue.1
      · exact h.pending t' (by simp [htasks, hin])

theorem Accounted.finish {w : World} (h : w.Accounted) {t : Task} {c : Cursor}
    {before after : List Task} (htasks : w.tasks = before ++ t :: after)
    (hrest : t.rest = .done c) :
    Accounted { w with trees := c :: w.trees, tasks := before ++ after } where
  turns := h.turns
  inUse := by
    -- What the caller had in hand covers the tree that is given back.
    have hinUse := h.inUse
    have hmade := uids_subperm_of_results (h.results (by simp [htasks]) hrest)
    rw [List.subperm_iff_count] at hinUse hmade ⊢
    intro u
    have hu := hinUse u
    have hc := hmade u
    simp only [World.inUse, Task.inUse, htasks, allUids, List.flatMap_append, List.flatMap_cons,
      List.count_append] at hu hc ⊢
    omega
  pending := by
    intro t' ht'
    refine h.pending t' ?_
    rcases List.mem_append.1 ht' with hin | hin <;> simp [htasks, hin]

/-- Traversing changes no identity of any tree. -/
theorem Traverses.uids {w w' : World} (h : Traverses w w') :
    w'.trees.map Cursor.uids = w.trees.map Cursor.uids := by
  obtain ⟨m, c, left, right, htrees⟩ := h
  simp [htrees]

theorem accounted_step {w w' : World} (h : w.Accounted) (hstep : Step w w') : w'.Accounted := by
  cases hstep with
  | start caller deed others _ found => exact h.start found
  | issue t next before after htasks hrest => exact h.issue htasks hrest
  | finish t c before after htasks hrest => exact h.finish htasks hrest
  | traverse w' htraverses =>
    have huids : allUids w'.trees = allUids w.trees := by
      simp only [allUids_eq_flatMap, List.flatMap_def, htraverses.uids]
    obtain ⟨m, c, left, right, htrees⟩ := htraverses
    refine ⟨h.turns, ?_, h.pending⟩
    have hinUse := h.inUse
    rw [World.inUse] at hinUse ⊢
    rw [huids]
    exact hinUse
  | drop c left right htrees =>
    refine ⟨h.turns, ?_, h.pending⟩
    have hinUse := h.inUse
    rw [List.subperm_iff_count] at hinUse ⊢
    intro u
    have hu := hinUse u
    simp only [World.inUse, htrees, allUids_append, allUids, List.count_append] at hu ⊢
    omega

theorem Reachable.accounted {w : World} (h : Reachable w) : w.Accounted := by
  induction h with
  | fresh => exact accounted_fresh
  | step _ hstep ih => exact accounted_step ih hstep

/-! ## 4. As long as a word can count them -/

theorem Accounted.map_toNat_served {w : World} (h : w.Accounted) (few : w.supply.issued < 2 ^ 64) :
    w.served.map (·.2.toNat) = List.range w.supply.issued := by
  obtain ⟨huids, hsupply⟩ := serve_spec (w.served.map (·.1)) {}
  simp only [h.turns, List.length_map, Nat.zero_add] at huids hsupply
  rw [hsupply] at few ⊢
  have hword : ∀ i ∈ List.range w.served.length, (UInt64.ofNat i).toNat = id i := by
    intro i hi
    have hlt := List.mem_range.1 hi
    exact UInt64.toNat_ofNat_of_lt' (Nat.lt_trans hlt few)
  calc w.served.map (·.2.toNat)
      = (w.served.map (·.2)).map UInt64.toNat := by simp
    _ = (List.range w.served.length).map fun i => (UInt64.ofNat i).toNat := by
        rw [huids, List.range_eq_range', List.map_map]
        rfl
    _ = List.range w.served.length := by
        rw [List.map_congr_left hword, List.map_id]

theorem Accounted.identified {w : World} (h : w.Accounted) (few : w.supply.issued < 2 ^ 64) :
    w.Identified := by
  have hissued := h.map_toNat_served few
  have hserved : (w.served.map (·.2)).Pairwise (· < ·) := by
    have hlt := List.pairwise_lt_range (n := w.supply.issued)
    rw [← hissued] at hlt
    simpa [List.pairwise_map, UInt64.lt_iff_toNat_lt] using hlt
  obtain ⟨part, hperm, hpart⟩ := h.inUse
  have hinUse : w.inUse.Nodup := hperm.nodup ((hserved.imp UInt64.ne_of_lt).sublist hpart)
  constructor
  case issued => exact hissued
  case turns => exact h.turns
  case increasing =>
    intro caller
    exact hserved.sublist (List.filter_sublist.map _)
  case distinct => exact hinUse
  case nodes =>
    obtain ⟨own, hown, hsub⟩ := uid_allNodes_subperm w.trees
    exact hown.nodup ((hinUse.sublist (List.sublist_append_left _ _)).sublist hsub)
  case below =>
    intro u hu
    have hin : u ∈ w.served.map (·.2) := hpart.subset (hperm.mem_iff.2 hu)
    obtain ⟨s, hs, rfl⟩ := List.mem_map.1 hin
    have hnumber : s.2.toNat ∈ w.served.map (·.2.toNat) := List.mem_map_of_mem hs
    rw [hissued] at hnumber
    exact List.mem_range.1 hnumber
  case results => exact fun t ht c hrest => h.results ht hrest

/-- However the callers take turns, as long as the identities fit a word:
those issued are 0, 1, 2 and so on, each caller receives ever greater ones,
all nodes have different ones, and an optimization changes them only where it
puts a child or a fresh empty cursor in the place of a node.  Traversing
issues none and changes none. -/
theorem identities_unique_and_stable (w : World) (reached : Reachable w)
    (few : w.supply.issued < 2 ^ 64) :
    w.Identified ∧
      (∀ w', Traverses w w' →
        w'.supply = w.supply ∧ w'.trees.map Cursor.uids = w.trees.map Cursor.uids) ∧
      ∀ deed : Deed, deed.Uninterrupted := by
  refine ⟨reached.accounted.identified few, ?_, uninterrupted⟩
  intro w' htraverses
  refine ⟨?_, htraverses.uids⟩
  obtain ⟨m, c, left, right, htrees⟩ := htraverses
  rfl

def neighbourSpec : Session.Spec := .join [.listing [.id 2, .id 4] {}, .empty {}] {}

/-- The tree made of it while a neighbour receives one identity. -/
def neighbourJoin : Cursor :=
  .join { uid := 3 } [.listing ⟨{ uid := 0 }, [.id 2, .id 4], 0⟩, .empty { uid := 2 }]

/-- Two callers: one makes a join over a list and nothing and optimizes it,
the other makes a list and copies the join. -/
theorem neighbours_identified :
    ∃ w, Reachable w ∧ w.supply.issued = 8 ∧
      w.served = [(0, 0), (1, 1), (0, 2), (0, 3), (1, 4), (0, 5), (1, 6), (1, 7)] ∧
      w.trees.map Cursor.uids = [[5], [4, 6, 7], [1]] ∧ w.Identified := by
  have h := Reachable.fresh
  -- The second identity goes to the list, the other three to the join.
  replace h := h.step (.start _ 0 (.make neighbourSpec fun _ => neighbourJoin) []
    (by simp) (.refl _))
  replace h := h.step (.start _ 1 (.make (.listing [] {}) fun _ => neighbourJoin) []
    (by simp) (.refl _))
  replace h := h.step (.issue _ _ _ [_] [] rfl rfl)
  replace h := h.step (.issue _ _ _ [] [_] rfl rfl)
  replace h := h.step (.finish _ _ _ [] [_] rfl rfl)
  replace h := h.step (.issue _ _ _ [] [] rfl rfl)
  replace h := h.step (.issue _ _ _ [] [] rfl rfl)
  replace h := h.step (.finish _ _ _ [] [] rfl rfl)
  -- The sixth goes to the optimization, in the middle of the copy.
  replace h := h.step (.start _ 1 (.copy neighbourJoin) _ (by simp) (.refl _))
  replace h := h.step (.start _ 0 (.optimize 1 neighbourJoin) [_] (by simp) (.refl _))
  replace h := h.step (.issue _ _ _ [_] [] rfl rfl)
  replace h := h.step (.issue _ _ _ [] [_] rfl rfl)
  replace h := h.step (.issue _ _ _ [_] [] rfl rfl)
  replace h := h.step (.issue _ _ _ [_] [] rfl rfl)
  replace h := h.step (.finish _ _ _ [_] [] rfl rfl)
  replace h := h.step (.traverse _ _ (.move _ .next _ [] [_] rfl))
  replace h := h.step (.finish _ _ _ [] [] rfl rfl)
  refine ⟨_, h, rfl, rfl, rfl, ?_⟩
  exact (identities_unique_and_stable _ h (by decide)).1

end World

end CursorTree
