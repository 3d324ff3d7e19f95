/-
CursorTree.Proofs.Simplification — optimizing a tree does not change what
an evaluation of it returns.

Simplifying looks only at cost triples: a join with a child that costs
nothing at all is replaced by an empty cursor.  So the theory is about what
a cost of zero implies.  That nothing is ahead of the child would not be
enough, since another child may drive the join; a child that empties a join
must also refuse every test.  A tree with both properties is barren here,
and what costs nothing is barren (`barren_of_cost_eq_zero`).

## How the proof goes

An empty list costs something, namely its one step, so by itself it empties
no join.  Replaced by an empty cursor it does, and then the join costs
nothing in turn.  So in a tree without wrappers any replacement, at
whatever depth, runs up to the root.  `simplify_spec` says it as a
dichotomy: either the tree comes back as it was, or it was barren and comes
back as one that costs nothing.  That is why the number of passes does not
matter: a tree that was changed once has no rows before, between and after.

A wrapper is replaced by what is inside it and enumerates nothing itself,
so a tree with a wrapper may gain rows.
-/
import CursorTree.Collect
import CursorTree.Proofs.DriverChoice
import CursorTree.Proofs.Enumeration

namespace CursorTree.Cursor

mutual

/-- Trees in which no wrapper takes part in an evaluation. -/
def WrapperFree : Cursor → Prop
  | wrapper _ _ => False
  | join _ cs => AllWrapperFree cs
  | watch _ i => i.WrapperFree
  | empty _ | listing _ | inert _ | stub _ _ _ | alternates _ _ _ _ => True

def AllWrapperFree : List Cursor → Prop
  | [] => True
  | c :: cs => c.WrapperFree ∧ AllWrapperFree cs

end

/-- A tree that produces no value and lets none pass. -/
structure Barren (c : Cursor) : Prop where
  ahead : c.ahead = []
  holds : ∀ v, c.holds v = false

/-! ## 1. What costs nothing is barren -/

theorem unfavorable_ne_zero : Cost.unfavorable ≠ Cost.zero := by decide

/-- A join that costs nothing is driven by a child that costs nothing. -/
theorem zero_mem_of_join_eq_zero {ks : List Cost} (h : Cost.join ks = .zero) :
    Cost.zero ∈ ks := by
  unfold Cost.join at h
  cases hd : ks[Cost.driver ks]? with
  | none =>
    rw [hd] at h
    exact absurd h unfavorable_ne_zero
  | some d =>
    rw [hd] at h
    simp only [Cost.zero, Cost.mk.injEq] at h
    obtain ⟨hsize, hnext, hcheck⟩ := h
    have hmem := List.mem_of_getElem? hd
    have hcheck' : d.checkCost = 0 :=
      eq_zero_of_total_eq_zero (eq_zero_of_clamp_eq_zero hcheck) _ (List.mem_map_of_mem hmem)
    have hnext' : d.nextCost = 0 := by
      have hsum := eq_zero_of_clamp_eq_zero hnext
      exact UInt64.toNat_inj.1 (by rw [UInt64.toNat_zero]; omega)
    have hzero : d = .zero := by
      cases d
      simp only at hsize hnext' hcheck'
      rw [hsize, hnext', hcheck', Cost.zero]
    exact hzero ▸ hmem

/-- A barren child makes a join barren, whichever child drives it: a barren
driver proposes nothing, and any other barren child refuses what is
proposed. -/
theorem barren_join {h : Head} {cs : List Cursor} {d : Cursor} (hd : d ∈ cs) (b : d.Barren) :
    (join h cs).Barren := by
  refine ⟨?_, fun v => ?_⟩
  · obtain ⟨c, hc, -⟩ := driver_spec (List.ne_nil_of_mem hd)
    obtain ⟨j, hj⟩ := List.mem_iff_getElem?.1 hd
    rw [ahead, aheadAt_eq_filter hc]
    by_cases hjk : j = Cost.driver (costs cs)
    · rw [← hjk, hj, Option.some.injEq] at hc
      rw [← hc, b.ahead, List.filter_nil]
    · have hrest : d ∈ cs.eraseIdx (Cost.driver (costs cs)) :=
        List.mem_eraseIdx_iff_getElem?.2 ⟨j, hjk, hj⟩
      refine List.filter_eq_nil_iff.2 fun v _ hv => ?_
      rw [Bool.true_and, holdAll_eq_all, List.all_eq_true] at hv
      exact absurd (hv d hrest) (Bool.eq_false_iff.1 (b.holds v))
  · rw [holds, holdAll_eq_all, List.all_eq_false]
    exact ⟨d, hd, Bool.eq_false_iff.1 (b.holds v)⟩

mutual

/-- What costs nothing at all is barren. -/
theorem barren_of_cost_eq_zero : ∀ c : Cursor, c.cost = .zero → c.Barren
  | empty _, _ | stub _ _ _, _ => ⟨rfl, fun _ => rfl⟩
  | listing l, h => absurd (congrArg Cost.nextCost h) (by simp [cost, Cost.zero])
  | inert _, h | wrapper _ _, h | alternates _ _ _ _, h => absurd h unfavorable_ne_zero
  | join _ cs, h => by
      have hmem := zero_mem_of_join_eq_zero h
      rw [costs_eq_map, List.mem_map] at hmem
      obtain ⟨d, hd, hzero⟩ := hmem
      exact barren_join hd (all_barren_of_cost_eq_zero cs d hd hzero)
  | watch _ i, h => by
      have b := barren_of_cost_eq_zero i h
      exact ⟨b.ahead, b.holds⟩

theorem all_barren_of_cost_eq_zero : ∀ cs : List Cursor, ∀ c ∈ cs, c.cost = .zero → c.Barren
  | [], _, hc, _ => absurd hc List.not_mem_nil
  | d :: ds, c, hc, h => by
      rcases List.mem_cons.1 hc with heq | hc
      · rw [heq] at h ⊢
        exact barren_of_cost_eq_zero d h
      · exact all_barren_of_cost_eq_zero ds c hc h

end

/-! ## 2. Simplifying once -/

/-- A barren tree has given way to one that costs nothing. -/
structure Collapsed (c d : Cursor) : Prop where
  barren : c.Barren
  free : d.cost = .zero
  wrapperFree : d.WrapperFree

/-- What simplifying a tree answers. -/
def Simplified (c : Cursor) (r : Cursor × Bool) : Prop :=
  r = (c, false) ∨ r.2 = true ∧ Collapsed c r.1

def SimplifiedAll (cs : List Cursor) (r : List Cursor × Bool) : Prop :=
  r = (cs, false) ∨ r.2 = true ∧ ∃ c ∈ cs, ∃ d ∈ r.1, Collapsed c d

theorem collapsed_empty {c : Cursor} (b : c.Barren) (h : Head) : Collapsed c (empty h) :=
  ⟨b, rfl, trivial⟩

theorem any_isZero_iff {cs : List Cursor} :
    (costs cs).any Cost.isZero = true ↔ ∃ c ∈ cs, c.cost = .zero := by
  simp [costs_eq_map, Cost.isZero]

mutual

/-- Simplifying a tree without wrappers leaves it as it is unless it is
barren. -/
theorem simplify_spec : ∀ c : Cursor, c.WrapperFree → ∀ s : Supply,
    Simplified c (c.simplify.outcome s).1
  | empty _, _, _ | inert _, _, _ | stub _ _ _, _, _ | alternates _ _ _ _, _, _ => .inl rfl
  | listing l, _, s => by
      rw [simplify]
      split
      next hempty =>
        refine .inr ⟨rfl, collapsed_empty ⟨?_, fun v => ?_⟩ _⟩
        · rw [ahead, Listing.pending, List.isEmpty_iff.1 hempty, List.drop_nil]
        · rw [holds, List.isEmpty_iff.1 hempty]
          rfl
      next => exact .inl rfl
  | join h cs, hc, s => by
      have r := simplifyAll_spec cs hc s
      simp only [simplify, Issuing.outcome_bind]
      split
      next hzero =>
        refine .inr ⟨rfl, collapsed_empty ?_ _⟩
        rcases r with heq | ⟨-, c, hcs, d, hd, col⟩
        · rw [heq] at hzero
          obtain ⟨d, hd, hfree⟩ := any_isZero_iff.1 hzero
          exact barren_join hd (barren_of_cost_eq_zero d hfree)
        · exact barren_join hcs col.barren
      next hnone =>
        rcases r with heq | ⟨-, c, hcs, d, hd, col⟩
        · rw [heq]
          exact .inl rfl
        · exact absurd (any_isZero_iff.2 ⟨d, hd, col.free⟩) hnone
  | watch w i, hc, s => by
      rcases simplify_spec i hc s with heq | ⟨hchanged, col⟩
      · refine .inl ?_
        simp only [simplify, Issuing.outcome_bind, Issuing.outcome_liftM]
        rw [heq]
        rfl
      · refine .inr ⟨hchanged, ⟨col.barren.ahead, col.barren.holds⟩, col.free, col.wrapperFree⟩

theorem simplifyAll_spec : ∀ cs : List Cursor, AllWrapperFree cs → ∀ s : Supply,
    SimplifiedAll cs ((simplifyAll cs).outcome s).1
  | [], _, _ => .inl rfl
  | c :: cs, hc, s => by
      have here := simplify_spec c hc.1 s
      have there := simplifyAll_spec cs hc.2 (c.simplify.outcome s).2
      simp only [simplifyAll, Issuing.outcome_bind, Issuing.outcome_pure]
      rcases here with heq | ⟨hchanged, col⟩
      · rcases there with heq' | ⟨hchanged', d, hd, e, he, col⟩
        · rw [heq, heq']
          exact .inl rfl
        · refine .inr ⟨?_, d, List.mem_cons_of_mem _ hd, e, List.mem_cons_of_mem _ he, col⟩
          rw [hchanged', Bool.or_true]
      · refine .inr ⟨?_, c, List.mem_cons_self, _, List.mem_cons_self, col⟩
        rw [hchanged, Bool.true_or]

end

/-! ## 3. Passes and evaluation -/

/-- However many passes are made, the tree is as it was, or it is barren and
so is what it has become. -/
theorem passes_spec (left : Nat) : ∀ (pass : Nat) (c : Cursor) (s : Supply), c.WrapperFree →
    ((passes left pass c).outcome s).1 = c ∨
      c.Barren ∧ ((passes left pass c).outcome s).1.Barren := by
  induction left with
  | zero => intro pass c s _; exact .inl rfl
  | succ left ih =>
    intro pass c s hc
    simp only [passes, Issuing.outcome_bind]
    rcases simplify_spec c hc s with heq | ⟨hchanged, col⟩
    · rw [heq]
      exact .inl rfl
    · rw [if_pos hchanged]
      have hbarren := barren_of_cost_eq_zero _ col.free
      refine .inr ⟨col.barren, ?_⟩
      simp only [Issuing.outcome_bind]
      rcases ih (pass + 1) _ _ col.wrapperFree with heq | ⟨-, b⟩
      · rw [heq]
        exact hbarren
      · exact b

theorem rows_of_barren {c : Cursor} (b : c.Barren) (limit : Option Nat) :
    (c.rows limit).val.1 = [] := by
  have hnone : c.next.val.1 = none := by
    rw [(next_spec c).value, b.ahead, List.head?_nil]
  unfold rows
  split
  · rfl
  · simp only [Traced.val_bind]
    split
    next => rfl
    next heq => rw [heq] at hnone; cases hnone

/-- Optimizing a tree without wrappers never changes the table that an
evaluation returns: not for any number of passes or any limit on rows, and
not in the middle of a traversal. -/
theorem execute_optimized_eq (c : Cursor) (hc : c.WrapperFree) (settings : Settings)
    (s s' : Supply) :
    ((c.execute (settings.withOptimize true)).outcome s).1 =
      ((c.execute (settings.withOptimize false)).outcome s').1 := by
  have plain : ((c.execute (settings.withOptimize false)).outcome s').1 =
      (c.collect settings.resultLimit).val.1 := rfl
  have optimized : ((c.execute (settings.withOptimize true)).outcome s).1 =
      (((c.optimize settings.maxPasses).outcome s).1.collect settings.resultLimit).val.1 := rfl
  rw [plain, optimized, optimize, (collect_spec _ _).1, (collect_spec _ _).1]
  rcases passes_spec _ 0 c s hc with heq | ⟨hc', hd⟩
  · rw [heq]
  · rw [rows_of_barren hc', rows_of_barren hd]

/-- A traversal in progress with an empty list two levels below the root,
which the first pass brings up to the root. -/
def deadBranch : Cursor :=
  join { uid := 4, tags := Tags.empty.add "x" }
    [listing ⟨{ uid := 0, last := some (.id 7) }, [.id 7, .id 8], 1⟩,
      join { uid := 3 } [stub { uid := 1 } ⟨"scan", 9, false, ⟨9, 1, 1⟩⟩ [],
        listing ⟨{ uid := 2, tags := Tags.empty.addFixed "y" (.name "n") }, [], 0⟩]]

theorem deadBranch_execute :
    deadBranch.WrapperFree ∧
      ((deadBranch.optimize 10).outcome ⟨5⟩).1 =
        empty { uid := 7, tags := (Tags.empty.add "x").addFixed "y" (.name "n") } ∧
      ((deadBranch.execute (({} : Settings).withOptimize true)).outcome ⟨5⟩).1 = {} ∧
      ((deadBranch.execute (({} : Settings).withOptimize false)).outcome ⟨5⟩).1 = {} := by
  have hc : deadBranch.WrapperFree := by
    simp [deadBranch, WrapperFree, AllWrapperFree]
  have hoptimized :
      ((deadBranch.execute (({} : Settings).withOptimize true)).outcome ⟨5⟩).1 = {} := rfl
  have hsame := execute_optimized_eq deadBranch hc {} ⟨5⟩ ⟨5⟩
  exact ⟨hc, rfl, hoptimized, hsame.symm.trans hoptimized⟩

end CursorTree.Cursor
