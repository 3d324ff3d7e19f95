/-
CursorTree.Proofs.Membership — what a test of membership answers and what
it leaves behind.

* `holds` says whether a tree holds a value.  It reads nothing but the
  values in the lists, so it is the same in every state of a traversal.
* `StandsOn` says that a tree has been confirmed on a value: every node
  that can be moved stands on it.

`check_spec` ties the two to `check`: the answer is `holds`, nothing but
the values stood on has changed, and a tree that answers true stands on
the value throughout.  A join stops at the first refusal and leaves the
children in front of it standing on the value; that is why the frame
condition is about released trees and not about equality.
-/
import CursorTree.Cursor.Check
import CursorTree.Proofs.Rewinding

namespace CursorTree.Cursor

mutual

/-- True when a tree holds a value: a list that has it, or a join all of
whose children hold it. -/
def holds (v : Value) : Cursor → Bool
  | listing l => decide (v ∈ l.values)
  | join _ cs => holdAll v cs
  | watch _ i => i.holds v
  | empty _ | inert _ | stub _ _ _ | wrapper _ _ | alternates _ _ _ _ => false

def holdAll (v : Value) : List Cursor → Bool
  | [] => true
  | c :: cs => c.holds v && holdAll v cs

end

mutual

/-- Every node of a tree that can be moved stands on a value, and on the
first binding of it. -/
def StandsOn (v : Value) : Cursor → Prop
  | listing l => l.head.last = some v
  | alternates h _ _ k => h.last = some v ∧ k = 0
  | join h cs => h.last = some v ∧ StandAllOn v cs
  | watch _ i => i.StandsOn v
  | empty _ | inert _ | stub _ _ _ | wrapper _ _ => False

def StandAllOn (v : Value) : List Cursor → Prop
  | [] => True
  | c :: cs => c.StandsOn v ∧ StandAllOn v cs

end

/-! ## 1. Holding a value -/

theorem holdAll_eq_all (v : Value) (cs : List Cursor) :
    holdAll v cs = cs.all fun c => c.holds v := by
  induction cs with
  | nil => rfl
  | cons c cs ih => rw [holdAll, ih, List.all_cons]

@[simp] theorem holdAll_append (v : Value) (cs ds : List Cursor) :
    holdAll v (cs ++ ds) = (holdAll v cs && holdAll v ds) := by
  simp only [holdAll_eq_all, List.all_append]

/-- One of some trees can be tested apart from the others. -/
theorem holdAll_eq_and_eraseIdx (v : Value) {cs : List Cursor} :
    ∀ {k : Nat} {c : Cursor}, cs[k]? = some c →
      holdAll v cs = (c.holds v && holdAll v (cs.eraseIdx k)) := by
  induction cs with
  | nil => intro k c hc; simp at hc
  | cons d ds ih =>
    intro k c hc
    cases k with
    | zero =>
      rw [List.getElem?_cons_zero, Option.some.injEq] at hc
      rw [hc, holdAll, List.eraseIdx_cons_zero]
    | succ k =>
      rw [List.getElem?_cons_succ] at hc
      rw [holdAll, ih hc, List.eraseIdx_cons_succ, holdAll, Bool.and_left_comm]

theorem standAllOn_append {v : Value} {cs ds : List Cursor}
    (hc : StandAllOn v cs) (hd : StandAllOn v ds) : StandAllOn v (cs ++ ds) := by
  induction cs with
  | nil => exact hd
  | cons c cs ih => exact ⟨hc.1, ih hc.2⟩

mutual

@[simp] theorem holds_rewound (v : Value) : ∀ c : Cursor, c.rewound.holds v = c.holds v
  | empty _ | inert _ | stub _ _ _ | wrapper _ _ | alternates _ _ _ _ => rfl
  | listing l => by rw [rewound, holds, holds, Listing.values_rewound]
  | join h cs => by rw [rewound, holds, holds, holdAll_rewoundAll v cs]
  | watch w i => by rw [rewound, holds, holds, holds_rewound v i]

@[simp] theorem holdAll_rewoundAll (v : Value) :
    ∀ cs : List Cursor, holdAll v (rewoundAll cs) = holdAll v cs
  | [] => rfl
  | c :: cs => by
      rw [rewoundAll, holdAll, holdAll, holds_rewound v c, holdAll_rewoundAll v cs]

end

theorem holdAll_eq_of_releasedAll_eq {cs ds : List Cursor} (h : releasedAll cs = releasedAll ds)
    (v : Value) : holdAll v cs = holdAll v ds := by
  rw [← holdAll_rewoundAll v cs, rewoundAll_eq_of_releasedAll_eq h, holdAll_rewoundAll]

/-! ## 2. Testing a value -/

/-- What a test of a value answers and leaves behind. -/
structure Tested (v : Value) (c : Cursor) (r : Bool × Cursor) : Prop where
  answer : r.1 = c.holds v
  /-- Nothing but the values stood on has changed. -/
  frame : r.2.released = c.released
  /-- After a success the whole tree stands on the value. -/
  stands : r.1 = true → r.2.StandsOn v

structure TestedAll (v : Value) (cs : List Cursor) (r : Bool × List Cursor) : Prop where
  answer : r.1 = holdAll v cs
  frame : releasedAll r.2 = releasedAll cs
  stands : r.1 = true → StandAllOn v r.2

theorem tested_refused {v : Value} {c : Cursor} (h : c.holds v = false) :
    Tested v c (false, c) :=
  ⟨h.symm, rfl, fun hf => absurd hf Bool.false_ne_true⟩

mutual

theorem check_spec (v : Value) : ∀ c : Cursor, Tested v c (c.check v).val
  | empty _ | inert _ | stub _ _ _ | wrapper _ _ | alternates _ _ _ _ => tested_refused rfl
  | listing l => by
      rw [check]
      split
      next hv => exact ⟨by simp [holds, hv], rfl, fun _ => rfl⟩
      next hv => exact tested_refused (by simp [holds, hv])
  | join h cs => by
      have ih := checkAll_spec v cs
      simp only [check, Traced.val_bind]
      split
      next hyes =>
        refine ⟨?_, ?_, fun _ => ⟨rfl, ih.stands hyes⟩⟩
        · rw [holds, ← ih.answer, hyes, Traced.val_pure]
        · simp only [Traced.val_pure, released, ih.frame, Head.clear_standOn]
      next hno =>
        refine ⟨?_, ?_, fun hf => absurd hf Bool.false_ne_true⟩
        · rw [holds, ← ih.answer, Bool.eq_false_iff.2 hno, Traced.val_pure]
        · simp only [Traced.val_pure, released, ih.frame]
  | watch w i => by
      have ih := check_spec v i
      simp only [check, Traced.val_bind, Traced.val_pure]
      exact ⟨ih.answer, by rw [released, released, ih.frame], ih.stands⟩

theorem checkAll_spec (v : Value) : ∀ cs : List Cursor, TestedAll v cs (checkAll v cs).val
  | [] => ⟨rfl, rfl, fun _ => trivial⟩
  | c :: cs => by
      have hc := check_spec v c
      have hcs := checkAll_spec v cs
      simp only [checkAll, Traced.val_bind]
      split
      next hyes =>
        refine ⟨?_, ?_, fun ht => ⟨hc.stands hyes, hcs.stands ht⟩⟩
        · rw [holdAll, ← hc.answer, hyes, Bool.true_and]
          exact hcs.answer
        · simp only [Traced.val_bind, Traced.val_pure, releasedAll, hc.frame, hcs.frame]
      next hno =>
        refine ⟨?_, ?_, fun hf => absurd hf Bool.false_ne_true⟩
        · rw [holdAll, ← hc.answer, Bool.eq_false_iff.2 hno, Bool.false_and, Traced.val_pure]
        · simp only [Traced.val_pure, releasedAll, hc.frame]

end

theorem rewound_check (v : Value) (c : Cursor) : (c.check v).val.2.rewound = c.rewound := by
  rw [← rewound_released, (check_spec v c).frame, rewound_released]

end CursorTree.Cursor
