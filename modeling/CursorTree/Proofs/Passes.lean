/-
CursorTree.Proofs.Passes — where the optimizer stops.

The optimizer simplifies a root again and again until a pass reports no
change or as many passes were made as are allowed.  `simplifyTimes` is the
same without a stop: so many simplifications, whatever they report.  The
results here put one beside the other.

* `FirstUnchanged` says which simplification is the first to report no
  change.  There is one for every root, because each change makes the tree
  lighter (`exists_firstUnchanged`).
* As long as passes report changes, the optimizer has done what so many
  simplifications do and has the other passes left (`outcome_passes_after`,
  and alike for calls and events).
* So it ends at the root of the first unchanged pass if it is allowed to
  come there, and at its cap otherwise (`optimize_stops`).

Trees are compared together with the supply of identities.  How many passes
were made is told by a watch on the root: it reports every call that the
root gets, and is no other cursor than the one inside it.
-/
import CursorTree.Proofs.Weight

namespace CursorTree.Cursor

/-- A root simplified so many times over. -/
def simplifyTimes : Nat → Cursor → Issuing Cursor
  | 0, c => pure c
  | n + 1, c => do
    let (d, _) ← c.simplify
    simplifyTimes n d

/-- What the next simplification reports after so many. -/
def changesAt (c : Cursor) (s : Supply) (n : Nat) : Bool :=
  let r := (simplifyTimes n c).outcome s
  (r.1.simplify.outcome r.2).1.2

/-- The first simplification of a root that reports no change. -/
structure FirstUnchanged (c : Cursor) (s : Supply) (k : Nat) : Prop where
  changed : ∀ i < k, c.changesAt s i = true
  unchanged : c.changesAt s k = false

/-- The calls of so many simplifications, the root being watched: one for
each, followed by those that it passes on to watches further down. -/
def rootCalls (w : String) (c : Cursor) (s : Supply) (n : Nat) : List (String × Operation) :=
  (List.range n).flatMap fun i =>
    let r := (simplifyTimes i c).outcome s
    (w, .optimize) :: r.1.simplify.calls r.2

/-- What is reported of the `i`-th of some passes that are numbered from
`pass` on. -/
def replacement (c : Cursor) (s : Supply) (pass i : Nat) : Event :=
  let old := ((simplifyTimes i c).outcome s).1
  let new := ((simplifyTimes (i + 1) c).outcome s).1
  .replaced (pass + i) old.uid new.uid new.kind

/-! ## 1. The first unchanged simplification -/

theorem firstUnchanged_succ {c : Cursor} {s : Supply} {k : Nat}
    (hfirst : (c.simplify.outcome s).1.2 = true)
    (h : FirstUnchanged (c.simplify.outcome s).1.1 (c.simplify.outcome s).2 k) :
    FirstUnchanged c s (k + 1) := by
  refine ⟨fun i hi => ?_, h.unchanged⟩
  cases i with
  | zero => exact hfirst
  | succ i => exact h.changed i (Nat.lt_of_succ_lt_succ hi)

/-- Every root settles, and after fewer changes than it is heavy. -/
theorem exists_firstUnchanged (n : Nat) : ∀ (c : Cursor) (s : Supply), c.weight ≤ n →
    ∃ k < n, FirstUnchanged c s k := by
  induction n with
  | zero =>
    intro c s hn
    have hpos := List.length_pos_iff.2 (nodes_ne_nil c)
    have hlen := length_le_weigh c.nodes
    rw [weight] at hn
    omega
  | succ n ih =>
    intro c s hn
    cases hflag : (c.simplify.outcome s).1.2 with
    | false =>
      exact ⟨0, Nat.zero_lt_succ n, fun i hi => absurd hi (Nat.not_lt_zero i), hflag⟩
    | true =>
      have hlt := weight_simplify_lt c s hflag
      obtain ⟨k, hk, h⟩ := ih (c.simplify.outcome s).1.1 (c.simplify.outcome s).2 (by omega)
      exact ⟨k + 1, Nat.succ_lt_succ hk, firstUnchanged_succ hflag h⟩

/-- From the first unchanged pass on the root is settled. -/
theorem FirstUnchanged.settled {c : Cursor} {s : Supply} {k : Nat} (h : FirstUnchanged c s k) :
    ((simplifyTimes k c).outcome s).1.Settled :=
  settled_of_unchanged _ h.unchanged

/-! ## 2. Only the optimizer reports -/

mutual

theorem events_close : ∀ c : Cursor, c.close.events = []
  | empty _ | listing _ | inert _ | stub _ _ _ | alternates _ _ _ _ => rfl
  | wrapper _ i => events_close i
  | join _ cs => events_closeAll cs
  | watch _ i => by
      simp only [close, Traced.events_bind, Traced.events_call, List.nil_append]
      exact events_close i

theorem events_closeAll : ∀ cs : List Cursor, (closeAll cs).events = []
  | [] => rfl
  | c :: cs => by
      simp only [closeAll, Traced.events_bind, events_close c, List.nil_append]
      exact events_closeAll cs

end

mutual

theorem events_simplify : ∀ (c : Cursor) (s : Supply), c.simplify.events s = []
  | empty _, _ | wrapper _ _, _ | inert _, _ | stub _ _ _, _ | alternates _ _ _ _, _ => rfl
  | listing l, s => by
      rw [simplify]
      split <;> rfl
  | join _ cs, s => by
      simp only [simplify, Issuing.events_bind, events_simplifyAll cs s, List.nil_append]
      split
      next =>
        simp only [Issuing.events_bind, Issuing.events_liftM, events_closeAll, List.nil_append]
        rfl
      next => rfl
  | watch _ i, s => by
      simp only [simplify, Issuing.events_bind, Issuing.events_liftM, Traced.events_call,
        List.nil_append, Issuing.outcome_liftM, events_simplify i s]
      rfl

theorem events_simplifyAll : ∀ (cs : List Cursor) (s : Supply), (simplifyAll cs).events s = []
  | [], _ => rfl
  | c :: cs, s => by
      simp only [simplifyAll, Issuing.events_bind, events_simplify c s, List.nil_append,
        events_simplifyAll cs]
      rfl

end

/-! ## 3. One pass -/

theorem calls_simplify_watch (w : String) (c : Cursor) (s : Supply) :
    (watch w c).simplify.calls s = (w, .optimize) :: c.simplify.calls s := by
  simp only [simplify, Issuing.calls_bind]
  exact congrArg _ (List.append_nil _)

section Changed

variable {c : Cursor} {s : Supply} (h : (c.simplify.outcome s).1.2 = true)
include h

theorem outcome_passes_changed (left pass : Nat) :
    (passes (left + 1) pass c).outcome s =
      (passes left (pass + 1) (c.simplify.outcome s).1.1).outcome (c.simplify.outcome s).2 := by
  simp only [passes, Issuing.outcome_bind, h, if_true, Issuing.outcome_liftM]

theorem calls_passes_changed (w : String) (left pass : Nat) :
    (passes (left + 1) pass (watch w c)).calls s = (w, .optimize) :: c.simplify.calls s ++
      (passes left (pass + 1) (watch w (c.simplify.outcome s).1.1)).calls
        (c.simplify.outcome s).2 := by
  have hwatch : (watch w c).simplify.outcome s =
      ((watch w (c.simplify.outcome s).1.1, true), (c.simplify.outcome s).2) := by
    rw [← h]
    rfl
  simp only [passes, Issuing.calls_bind, calls_simplify_watch, hwatch, if_true,
    Issuing.calls_report, Issuing.outcome_liftM, List.nil_append]

theorem events_passes_changed (left pass : Nat) :
    (passes (left + 1) pass c).events s = c.replacement s pass 0 ::
      (passes left (pass + 1) (c.simplify.outcome s).1.1).events (c.simplify.outcome s).2 := by
  simp only [passes, Issuing.events_bind, h, if_true, events_simplify, List.nil_append,
    Issuing.events_liftM, Issuing.outcome_liftM, Traced.events_report, List.singleton_append]
  rfl

end Changed

section Settled

variable {c : Cursor} (h : c.Settled)
include h

/-- A settled root is answered as it is, in any number of passes. -/
theorem outcome_passes_settled (left pass : Nat) (s : Supply) :
    (passes left pass c).outcome s = (c, s) := by
  cases left with
  | zero => rfl
  | succ left =>
    simp only [passes, Issuing.outcome_bind, h s, Bool.false_eq_true, if_false]
    rfl

theorem calls_passes_settled (w : String) (left pass : Nat) (s : Supply) :
    (passes (left + 1) pass (watch w c)).calls s = (w, .optimize) :: c.simplify.calls s := by
  have hwatch : (watch w c).simplify.outcome s = ((watch w c, false), s) := by
    simp only [simplify, Issuing.outcome_bind, Issuing.outcome_liftM, h s]
    rfl
  simp only [passes, Issuing.calls_bind, calls_simplify_watch, hwatch, Bool.false_eq_true,
    if_false, Issuing.calls_report, Issuing.calls_pure, List.append_nil]

theorem events_passes_settled (left pass : Nat) (s : Supply) :
    (passes (left + 1) pass c).events s = [.unchanged pass c.uid] := by
  simp only [passes, Issuing.events_bind, h s, Bool.false_eq_true, if_false, events_simplify,
    Issuing.events_liftM, Traced.events_report]
  rfl

end Settled

/-! ## 4. Passes after some changes

The induction is on the number of changes; what the first of them makes of
the root and the supply is where the others start. -/

theorem changed_uncons {c : Cursor} {s : Supply} {n : Nat}
    (h : ∀ i < n + 1, c.changesAt s i = true) :
    (c.simplify.outcome s).1.2 = true ∧
      ∀ i < n, (c.simplify.outcome s).1.1.changesAt (c.simplify.outcome s).2 i = true :=
  ⟨h 0 (Nat.zero_lt_succ n), fun i hi => h (i + 1) (Nat.succ_lt_succ hi)⟩

theorem outcome_passes_after (n left : Nat) : ∀ (pass : Nat) (c : Cursor) (s : Supply),
    (∀ i < n, c.changesAt s i = true) →
      (passes (n + left) pass c).outcome s =
        (passes left (pass + n) ((simplifyTimes n c).outcome s).1).outcome
          ((simplifyTimes n c).outcome s).2 := by
  induction n with
  | zero =>
    intro pass c s _
    rw [Nat.zero_add]
    rfl
  | succ n ih =>
    intro pass c s h
    obtain ⟨hfirst, hrest⟩ := changed_uncons h
    rw [Nat.add_right_comm, outcome_passes_changed hfirst,
      ih (pass + 1) _ _ hrest, Nat.add_right_comm]
    rfl

theorem rootCalls_succ (w : String) (c : Cursor) (s : Supply) (n : Nat) :
    rootCalls w c s (n + 1) = (w, .optimize) :: c.simplify.calls s ++
      rootCalls w (c.simplify.outcome s).1.1 (c.simplify.outcome s).2 n := by
  rw [rootCalls, List.range_succ_eq_map, List.flatMap_cons, List.flatMap_map]
  rfl

theorem calls_passes_after (w : String) (n left : Nat) : ∀ (pass : Nat) (c : Cursor) (s : Supply),
    (∀ i < n, c.changesAt s i = true) →
      (passes (n + left) pass (watch w c)).calls s = rootCalls w c s n ++
        (passes left (pass + n) (watch w ((simplifyTimes n c).outcome s).1)).calls
          ((simplifyTimes n c).outcome s).2 := by
  induction n with
  | zero =>
    intro pass c s _
    rw [Nat.zero_add]
    rfl
  | succ n ih =>
    intro pass c s h
    obtain ⟨hfirst, hrest⟩ := changed_uncons h
    rw [Nat.add_right_comm, calls_passes_changed hfirst,
      ih (pass + 1) _ _ hrest, rootCalls_succ,
      List.append_assoc, Nat.add_right_comm]
    rfl

theorem map_replacement_succ (c : Cursor) (s : Supply) (pass n : Nat) :
    (List.range (n + 1)).map (c.replacement s pass) = c.replacement s pass 0 ::
      (List.range n).map
        ((c.simplify.outcome s).1.1.replacement (c.simplify.outcome s).2 (pass + 1)) := by
  have hnext : ∀ i, c.replacement s pass (i + 1) =
      (c.simplify.outcome s).1.1.replacement (c.simplify.outcome s).2 (pass + 1) i := fun i =>
    congrArg (fun m => Event.replaced m _ _ _) (Nat.add_right_comm pass i 1)
  rw [List.range_succ_eq_map, List.map_cons, List.map_map]
  exact congrArg _ (List.map_congr_left fun i _ => hnext i)

theorem events_passes_after (n left : Nat) : ∀ (pass : Nat) (c : Cursor) (s : Supply),
    (∀ i < n, c.changesAt s i = true) →
      (passes (n + left) pass c).events s = (List.range n).map (c.replacement s pass) ++
        (passes left (pass + n) ((simplifyTimes n c).outcome s).1).events
          ((simplifyTimes n c).outcome s).2 := by
  induction n with
  | zero =>
    intro pass c s _
    rw [Nat.zero_add]
    rfl
  | succ n ih =>
    intro pass c s h
    obtain ⟨hfirst, hrest⟩ := changed_uncons h
    rw [Nat.add_right_comm, events_passes_changed hfirst,
      ih (pass + 1) _ _ hrest, map_replacement_succ,
      List.cons_append, Nat.add_right_comm]
    rfl

/-! ## 5. Where the passes end -/

/-- Without an unchanged pass among them, all passes are made. -/
theorem outcome_passes_of_changed {n : Nat} {c : Cursor} {s : Supply}
    (h : ∀ i < n, c.changesAt s i = true) (pass : Nat) :
    (passes n pass c).outcome s = (simplifyTimes n c).outcome s :=
  outcome_passes_after n 0 pass c s h

theorem calls_passes_of_changed {n : Nat} {c : Cursor} {s : Supply}
    (h : ∀ i < n, c.changesAt s i = true) (w : String) (pass : Nat) :
    (passes n pass (watch w c)).calls s = rootCalls w c s n :=
  (calls_passes_after w n 0 pass c s h).trans (List.append_nil _)

theorem events_passes_of_changed {n : Nat} {c : Cursor} {s : Supply}
    (h : ∀ i < n, c.changesAt s i = true) (pass : Nat) :
    (passes n pass c).events s =
      (List.range n).map (c.replacement s pass) ++ [.capReached (pass + n)] :=
  events_passes_after n 0 pass c s h

section FirstUnchanged

variable {c : Cursor} {s : Supply} {k left : Nat} (h : FirstUnchanged c s k) (hlt : k < left)
include h hlt

/-- With a pass to spare, they stop at the first unchanged one. -/
theorem outcome_passes_of_firstUnchanged (pass : Nat) :
    (passes left pass c).outcome s = (simplifyTimes k c).outcome s := by
  obtain ⟨m, rfl⟩ := Nat.exists_eq_add_of_lt hlt
  rw [Nat.add_assoc, outcome_passes_after k (m + 1) pass c s h.changed,
    outcome_passes_settled h.settled]

theorem calls_passes_of_firstUnchanged (w : String) (pass : Nat) :
    (passes left pass (watch w c)).calls s = rootCalls w c s (k + 1) := by
  obtain ⟨m, rfl⟩ := Nat.exists_eq_add_of_lt hlt
  rw [Nat.add_assoc, calls_passes_after w k (m + 1) pass c s h.changed,
    calls_passes_settled h.settled, rootCalls, rootCalls, List.range_succ, List.flatMap_append,
    List.flatMap_singleton]

theorem events_passes_of_firstUnchanged (pass : Nat) :
    (passes left pass c).events s = (List.range k).map (c.replacement s pass) ++
      [.unchanged (pass + k) ((simplifyTimes k c).outcome s).1.uid] := by
  obtain ⟨m, rfl⟩ := Nat.exists_eq_add_of_lt hlt
  rw [Nat.add_assoc, events_passes_after k (m + 1) pass c s h.changed,
    events_passes_settled h.settled]

end FirstUnchanged

/-! ## 6. Passes in two parts -/

/-- The number of a pass is reported and has no other effect. -/
theorem outcome_passes_pass (left : Nat) : ∀ (pass pass' : Nat) (c : Cursor) (s : Supply),
    (passes left pass c).outcome s = (passes left pass' c).outcome s := by
  induction left with
  | zero => intro pass pass' c s; rfl
  | succ left ih =>
    intro pass pass' c s
    cases hflag : (c.simplify.outcome s).1.2 with
    | true =>
      rw [outcome_passes_changed hflag, outcome_passes_changed hflag]
      exact ih _ _ _ _
    | false =>
      have hset := settled_of_unchanged c hflag
      rw [outcome_passes_settled hset, outcome_passes_settled hset]

theorem outcome_passes_add (p q pass pass' : Nat) (c : Cursor) (s : Supply) :
    (passes (p + q) pass c).outcome s =
      (passes q pass' ((passes p pass c).outcome s).1).outcome ((passes p pass c).outcome s).2 := by
  obtain ⟨k, -, h⟩ := exists_firstUnchanged c.weight c s (Nat.le_refl _)
  rcases Nat.lt_or_ge k p with hlt | hge
  · rw [outcome_passes_of_firstUnchanged h hlt,
      outcome_passes_of_firstUnchanged h (Nat.lt_add_right q hlt),
      outcome_passes_settled h.settled]
  · have hchanged : ∀ i < p, c.changesAt s i = true := fun i hi =>
      h.changed i (Nat.lt_of_lt_of_le hi hge)
    rw [outcome_passes_of_changed hchanged, outcome_passes_after p q pass c s hchanged]
    exact outcome_passes_pass q _ _ _ _

/-! ## 7. The optimizer -/

/-- Every root has a first unchanged pass.  An optimizer whose cap is beyond
that pass stops there, at the root it has come to by then, and optimizing
this root again, with whatever cap and supply, changes nothing.  An
optimizer whose cap is not beyond it stops at the cap, after just as many
simplifications; a cap of zero counts as one.  And optimizing twice is
optimizing once with the sum of the caps. -/
theorem optimize_stops (c : Cursor) (s : Supply) :
    ∃ k, FirstUnchanged c s k ∧
      (∀ cap, k < max cap 1 →
        (c.optimize cap).outcome s = (c.simplifyTimes k).outcome s ∧
        ∀ w, ((watch w c).optimize cap).calls s = rootCalls w c s (k + 1)) ∧
      (∀ cap' s', (((c.simplifyTimes k).outcome s).1.optimize cap').outcome s' =
        (((c.simplifyTimes k).outcome s).1, s')) ∧
      (∀ cap, max cap 1 ≤ k →
        (c.optimize cap).outcome s = (c.simplifyTimes (max cap 1)).outcome s ∧
        ∀ w, ((watch w c).optimize cap).calls s = rootCalls w c s (max cap 1)) ∧
      ∀ p q, 1 ≤ p → 1 ≤ q →
        (c.optimize p >>= fun d => d.optimize q).outcome s = (c.optimize (p + q)).outcome s := by
  obtain ⟨k, -, h⟩ := exists_firstUnchanged c.weight c s (Nat.le_refl _)
  refine ⟨k, h, fun cap hcap => ⟨?_, fun w => ?_⟩, fun cap' s' => ?_,
    fun cap hcap => ?_, fun p q hp hq => ?_⟩
  · exact outcome_passes_of_firstUnchanged h hcap 0
  · exact calls_passes_of_firstUnchanged h hcap w 0
  · exact outcome_passes_settled h.settled _ 0 s'
  · have hchanged : ∀ i < max cap 1, c.changesAt s i = true := fun i hi =>
      h.changed i (Nat.lt_of_lt_of_le hi hcap)
    exact ⟨outcome_passes_of_changed hchanged 0, fun w => calls_passes_of_changed hchanged w 0⟩
  · have hsum : max (p + q) 1 = max p 1 + max q 1 := by omega
    rw [Issuing.outcome_bind, optimize, optimize, optimize, hsum]
    exact (outcome_passes_add (max p 1) (max q 1) 0 0 c s).symm

end CursorTree.Cursor
