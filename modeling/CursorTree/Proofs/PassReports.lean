/-
CursorTree.Proofs.PassReports — the reports of the optimizer are a chain of
its passes.

A pass that replaces the root is reported with the identities of the root
that was there and of the one that came for it.  Behind these reports there
is one more, which says why no pass followed.

The reports are held against each other as well as against the passes.
`Linked` looks at events only: their numbers go up by one, and each starts
from the root that the one before it put in place.  A join that was rewritten
further down keeps its identity, so an event may lead from a root to the same
root.

Where the run ends is taken from the passes: at the first unchanged one if
the cap is beyond it, and at the cap otherwise (`optimize_reports_chain`).
-/
import CursorTree.Proofs.Passes

namespace CursorTree.Cursor

/-- Reports of replacements, numbered from a pass on, that lead from one root
to another. -/
inductive Linked : Nat → Uid → List Event → Uid → Prop
  | nil {pass : Nat} {root : Uid} : Linked pass root [] root
  | cons {pass : Nat} {old new root : Uid} {kind : String} {es : List Event}
      (rest : Linked (pass + 1) new es root) :
      Linked pass old (.replaced pass old new kind :: es) root

/-- The report that ends a run: after fewer replacements than passes are
allowed, the next pass has left the root as it was. -/
def closing (cap replaced : Nat) (root : Uid) : Event :=
  if replaced < cap then .unchanged replaced root else .capReached cap

/-- A run of passes under a cap replaces the root so many times, stops at the
first pass that does not or else at the cap, and reports all that. -/
structure Reported (c : Cursor) (s : Supply) (cap replaced : Nat) : Prop where
  allowed : replaced ≤ cap
  changed : ∀ i < replaced, c.changesAt s i = true
  unchanged : replaced < cap → c.changesAt s replaced = false
  answer : (passes cap 0 c).outcome s = (c.simplifyTimes replaced).outcome s
  events : (passes cap 0 c).events s = (List.range replaced).map (c.replacement s 0) ++
    [closing cap replaced ((passes cap 0 c).outcome s).1.uid]

/-! ## 1. Replacements -/

/-- The replacement of a root is reported with its old and its new identity,
and the replacements after it go on from the new one. -/
theorem linked_replacements (n : Nat) : ∀ (pass : Nat) (c : Cursor) (s : Supply),
    Linked pass c.uid ((List.range n).map (c.replacement s pass))
      ((simplifyTimes n c).outcome s).1.uid := by
  induction n with
  | zero => intro pass c s; exact .nil
  | succ n ih =>
    intro pass c s
    rw [map_replacement_succ]
    exact .cons (ih (pass + 1) _ _)

theorem map_message_replacements (c : Cursor) (s : Supply) (n : Nat) :
    ((List.range n).map (c.replacement s 0)).map Event.message =
      List.replicate n "iterator replaced" := by
  have hsame : Event.message ∘ c.replacement s 0 = fun _ => "iterator replaced" := rfl
  rw [List.map_map, hsame, List.map_const', List.length_range]

theorem message_closing (cap replaced : Nat) (root : Uid) :
    (closing cap replaced root).message =
      if replaced < cap then "iterator tree unchanged" else "optimizer pass cap reached" := by
  unfold closing
  split <;> rfl

/-! ## 2. A run and its end -/

theorem FirstUnchanged.reported {c : Cursor} {s : Supply} {k cap : Nat}
    (h : FirstUnchanged c s k) (hlt : k < cap) : Reported c s cap k := by
  have hanswer := outcome_passes_of_firstUnchanged h hlt 0
  refine ⟨Nat.le_of_lt hlt, h.changed, fun _ => h.unchanged, hanswer, ?_⟩
  rw [events_passes_of_firstUnchanged h hlt, hanswer, closing, if_pos hlt, Nat.zero_add]

theorem reported_of_changed {c : Cursor} {s : Supply} {cap : Nat}
    (h : ∀ i < cap, c.changesAt s i = true) : Reported c s cap cap := by
  refine ⟨Nat.le_refl cap, h, fun hlt => absurd hlt (Nat.lt_irrefl cap),
    outcome_passes_of_changed h 0, ?_⟩
  rw [events_passes_of_changed h, closing, if_neg (Nat.lt_irrefl cap), Nat.zero_add]

/-- Every run is reported, wherever the first unchanged pass is. -/
theorem exists_reported (c : Cursor) (s : Supply) (cap : Nat) : ∃ j, Reported c s cap j := by
  obtain ⟨k, -, h⟩ := exists_firstUnchanged c.weight c s (Nat.le_refl _)
  rcases Nat.lt_or_ge k cap with hlt | hge
  · exact ⟨k, h.reported hlt⟩
  · exact ⟨cap, reported_of_changed fun i hi => h.changed i (Nat.lt_of_lt_of_le hi hge)⟩

/-! ## 3. The optimizer -/

/-- An optimizer reports each pass that replaced the root, in order and
numbered from zero, and then once why it ended.  The reports of replacements
lead from the root it was given to the root it answers, and each names the
kind of the root that was put in place.  When fewer passes than allowed
replaced the root, the next one is reported to have left the answered root
unchanged; when all did, the cap is reported.  A cap of zero counts as one. -/
theorem optimize_reports_chain (c : Cursor) (s : Supply) (cap : Nat) :
    let answered := (c.optimize cap).outcome s
    ∃ j ≤ max cap 1,
      (∀ i < j, c.changesAt s i = true) ∧
      (j < max cap 1 → c.changesAt s j = false) ∧
      answered = (c.simplifyTimes j).outcome s ∧
      (c.optimize cap).events s = (List.range j).map (c.replacement s 0) ++
        [closing (max cap 1) j answered.1.uid] ∧
      Linked 0 c.uid ((List.range j).map (c.replacement s 0)) answered.1.uid ∧
      ((c.optimize cap).events s).map Event.message = List.replicate j "iterator replaced" ++
        [if j < max cap 1 then "iterator tree unchanged" else "optimizer pass cap reached"] := by
  intro answered
  obtain ⟨j, r⟩ := exists_reported c s (max cap 1)
  have hanswer : answered = (c.simplifyTimes j).outcome s := r.answer
  have hevents : (c.optimize cap).events s = (List.range j).map (c.replacement s 0) ++
      [closing (max cap 1) j answered.1.uid] := r.events
  refine ⟨j, r.allowed, r.changed, r.unchanged, hanswer, hevents, ?_, ?_⟩
  · rw [hanswer]
    exact linked_replacements j 0 c s
  · rw [hevents, List.map_append, map_message_replacements, List.map_singleton, message_closing]

end CursorTree.Cursor
