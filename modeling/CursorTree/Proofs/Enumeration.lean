/-
CursorTree.Proofs.Enumeration — which values a tree still enumerates, and
in which order.

`ahead` lists the values a tree has still to enumerate: the pending values
of the list at the end of the chain of drivers, without those that some
other child of a join on the way refuses.  The main statement is
`next_spec`: a call of `next` answers the first value ahead, leaves the
others ahead, and changes nothing but the traversal.

## How the proof goes

`next` is not recursive; `pull` is, and it hands a test down the tree that
grows at every join.  So the induction is about `pull` with an arbitrary
test.  What is assumed of the test is `Decides`: its answers are those of a
predicate on values as long as its state satisfies an invariant that it
keeps, and a value it takes leaves its state in some condition.  For a join
the predicate is "all other children hold the value, and whoever asked takes
it", and the invariant is that the other children have not moved
(`amid_decides`).  `pull_spec` then says that a pull answers the first value
ahead that the predicate accepts and leaves what comes after it (`past`).
-/
import CursorTree.Cursor.Pull
import CursorTree.Proofs.Membership

namespace CursorTree

/-! ## 1. Behind the first match -/

/-- What comes after the first element that a predicate accepts. -/
def past {α : Type} (p : α → Bool) : List α → List α
  | [] => []
  | a :: l => if p a then l else past p l

theorem past_true {α : Type} (l : List α) : past (fun _ => true) l = l.tail := by
  cases l <;> rfl

/-- Skipping the elements that a filter drops can wait until the filter is
applied. -/
theorem filter_past {α : Type} (p q : α → Bool) (l : List α) :
    (past (fun a => q a && p a) l).filter q = past p (l.filter q) := by
  induction l with
  | nil => rfl
  | cons a l ih =>
    by_cases hq : q a = true
    · rw [List.filter_cons_of_pos hq]
      by_cases hp : p a = true
      · simp only [past, hq, hp, Bool.and_self, if_true]
      · simp only [past, hq, hp, Bool.true_and, if_false, ih, Bool.false_eq_true]
    · rw [List.filter_cons_of_neg hq, ← ih]
      simp only [past, hq, Bool.false_and, if_false, Bool.false_eq_true]

/-! ## 2. Tests that decide a predicate -/

/-- The answers of a test are those of a predicate while its state satisfies
an invariant, which it keeps; taking a value establishes a condition. -/
structure Decides {σ : Type} (accept : Acceptance σ) (p : Value → Bool) (inv : σ → Prop)
    (post : Value → σ → Prop) : Prop where
  answer : ∀ v s, inv s → (accept v s).val.1 = p v
  keeps : ∀ v s, inv s → inv (accept v s).val.2
  taken : ∀ v s, inv s → p v = true → post v (accept v s).val.2

theorem decides_any :
    Decides (fun _ s => pure (true, s)) (fun _ => true) (fun _ : Unit => True)
      (fun _ _ => True) :=
  ⟨fun _ _ _ => rfl, fun _ _ _ => trivial, fun _ _ _ _ => trivial⟩

section Tests

variable {σ : Type} {accept : Acceptance σ} {p : Value → Bool} {inv : σ → Prop}
  {post : Value → σ → Prop}

theorem numbering_decides (d : Decides accept p inv post) (h : Head) :
    Decides (Cursor.numbering accept) p (fun t => t.1.clear = h.clear ∧ inv t.2.2)
      (fun v t => t.1.last = some v ∧ t.2.1 = 0 ∧ post v t.2.2) where
  answer v s hs := d.answer v s.2.2 hs.2
  keeps v s hs := ⟨hs.1, d.keeps v s.2.2 hs.2⟩
  taken v s hs hp := ⟨rfl, rfl, d.taken v s.2.2 hs.2 hp⟩

theorem reporting_decides (d : Decides accept p inv post) (w : String) :
    Decides (Cursor.reporting w accept) p inv post := by
  have hval : ∀ v s, (Cursor.reporting w accept v s).val = (accept v s).val := by
    intro v s
    simp only [Cursor.reporting, Traced.val_bind]
    split
    next hyes => exact Prod.ext hyes.symm rfl
    next hno => exact Prod.ext (Bool.eq_false_iff.2 hno).symm rfl
  refine ⟨fun v s hs => ?_, fun v s hs => ?_, fun v s hs hp => ?_⟩
  · rw [hval, d.answer v s hs]
  · rw [hval]; exact d.keeps v s hs
  · rw [hval]; exact d.taken v s hs hp

/-- The condition in which the test of a join keeps the join's head, the
children beside the driver, and the state of whoever asked. -/
def Amid (h : Head) (before after : List Cursor) (inv : σ → Prop) :
    Head × List Cursor × List Cursor × σ → Prop :=
  fun t => t.1.clear = h.clear ∧ Cursor.releasedAll t.2.1 = Cursor.releasedAll before ∧
    Cursor.releasedAll t.2.2.1 = Cursor.releasedAll after ∧ inv t.2.2.2

/-- A join decides whether its other children hold a value and whoever asked
takes it.  The children move while they are tested, but only in what they
stand on, so they go on deciding alike. -/
theorem amid_decides (d : Decides accept p inv post) (h : Head) (before after : List Cursor) :
    Decides (Cursor.amid accept)
      (fun v => Cursor.holdAll v before && Cursor.holdAll v after && p v)
      (Amid h before after inv)
      (fun v t => t.1.last = some v ∧ Cursor.StandAllOn v t.2.1 ∧
        Cursor.StandAllOn v t.2.2.1 ∧ post v t.2.2.2) := by
  refine ⟨?_, ?_, ?_⟩
  all_goals
    rintro v ⟨g, bs, as, s⟩ ⟨hg, hbs, has, hs⟩
    have hb := Cursor.checkAll_spec v bs
    have ha := Cursor.checkAll_spec v as
    have hbAns := hb.answer.trans (Cursor.holdAll_eq_of_releasedAll_eq hbs v)
    have haAns := ha.answer.trans (Cursor.holdAll_eq_of_releasedAll_eq has v)
    simp only [Cursor.amid, Traced.val_bind]
  · rw [← hbAns, ← haAns, ← d.answer v s hs]
    split
    next hyes =>
      simp only [Traced.val_bind, hyes, Bool.true_and]
      split
      next hyes' => simp only [Traced.val_bind, Traced.val_pure, hyes', Bool.true_and]
      next hno => rw [Bool.eq_false_iff.2 hno]; rfl
    next hno => rw [Bool.eq_false_iff.2 hno]; rfl
  · split
    · simp only [Traced.val_bind]
      split
      · exact ⟨hg, hb.frame.trans hbs, ha.frame.trans has, d.keeps v s hs⟩
      · exact ⟨hg, hb.frame.trans hbs, ha.frame.trans has, hs⟩
    · exact ⟨hg, hb.frame.trans hbs, has, hs⟩
  · intro htaken
    simp only [Bool.and_eq_true] at htaken
    obtain ⟨⟨hbt, hat⟩, hpt⟩ := htaken
    have hyes := hbAns.trans hbt
    have hyes' := haAns.trans hat
    simp only [hyes, hyes', if_true, Traced.val_bind, Traced.val_pure]
    exact ⟨rfl, hb.stands hyes, ha.stands hyes', d.taken v s hs hpt⟩

end Tests

/-! ## 3. Pulling a list -/

structure Listing.Pulled {σ : Type} (p : Value → Bool) (inv : σ → Prop) (post : Value → σ → Prop)
    (l : Listing) (r : Option Value × Listing × σ) : Prop where
  value : r.1 = l.pending.find? p
  ahead : r.2.1.pending = past p l.pending
  frame : r.2.1.rewound = l.rewound
  kept : inv r.2.2
  stands : ∀ v, r.1 = some v → r.2.1.head.last = some v ∧ post v r.2.2

section Lists

variable {σ : Type} {accept : Acceptance σ} {p : Value → Bool} {inv : σ → Prop}
  {post : Value → σ → Prop}

/-- Offering the values behind a position of a list moves the position
behind the first one taken, or to the end. -/
theorem Listing.offer_spec (d : Decides accept p inv post) (l : Listing) (vs : List Value) :
    ∀ (h : Head) (position : Nat) (s : σ), h.clear = l.head.clear →
      l.values.drop position = vs → inv s →
      Listing.Pulled p inv post { l with position } (
        let r := (Listing.offer accept h position s vs).val
        (r.1, { l with head := r.2.1, position := r.2.2.1 }, r.2.2.2)) := by
  induction vs with
  | nil =>
    intro h position s hh hvs hs
    have hp : ({ l with position } : Listing).pending = [] := hvs
    refine ⟨?_, ?_, ?_, hs, fun v hv => nomatch hv⟩
    · rw [hp]; rfl
    · rw [hp]; exact hvs
    · simp only [Listing.offer, Traced.val_pure, Listing.rewound, hh]
  | cons v vs ih =>
    intro h position s hh hvs hs
    have hp : ({ l with position } : Listing).pending = v :: vs := hvs
    have hnext : l.values.drop (position + 1) = vs := by
      rw [← List.tail_drop, hvs, List.tail_cons]
    have hans := d.answer v s hs
    simp only [Listing.offer, Traced.val_bind]
    split
    next hyes =>
      have hpv : p v = true := hans ▸ hyes
      refine ⟨?_, ?_, ?_, d.keeps v s hs, ?_⟩
      · rw [hp, List.find?_cons_of_pos hpv]; rfl
      · rw [hp, past, if_pos hpv]; exact hnext
      · simp only [Traced.val_pure, Listing.rewound, Head.clear_standOn, hh]
      · rintro w ⟨⟩
        exact ⟨rfl, d.taken v s hs hpv⟩
    next hno =>
      have hpv : ¬ p v = true := hans ▸ hno
      have rest := ih (h.standOn v) (position + 1) (accept v s).val.2 hh hnext
        (d.keeps v s hs)
      have hq : ({ l with position := position + 1 } : Listing).pending = vs := hnext
      refine ⟨?_, ?_, rest.frame, rest.kept, rest.stands⟩
      · rw [hp, List.find?_cons_of_neg hpv]
        exact rest.value.trans (congrArg (List.find? p) hq)
      · rw [hp, past, if_neg hpv]
        exact rest.ahead.trans (congrArg (past p) hq)

theorem Listing.pull_spec (d : Decides accept p inv post) (l : Listing) {s : σ} (hs : inv s) :
    Listing.Pulled p inv post l (l.pull accept s).val :=
  Listing.offer_spec d l l.pending l.head l.position s rfl rfl hs

end Lists

namespace Cursor

/-! ## 4. The values ahead of a tree -/

mutual

/-- The values a tree has still to enumerate, in order. -/
def ahead : Cursor → List Value
  | listing l => l.pending
  | alternates _ l _ _ => l.pending
  | join _ cs => aheadAt (fun _ => true) (Cost.driver (costs cs)) cs
  | watch _ i => i.ahead
  | empty _ | inert _ | stub _ _ _ | wrapper _ _ => []

/-- The values ahead of the tree at a position that a predicate accepts and
that all other trees hold. -/
def aheadAt (p : Value → Bool) : Nat → List Cursor → List Value
  | _, [] => []
  | 0, c :: after => c.ahead.filter fun v => p v && holdAll v after
  | k + 1, c :: cs => aheadAt (fun v => p v && c.holds v) k cs

end

theorem aheadAt_append (before : List Cursor) :
    ∀ (p : Value → Bool) (k : Nat) (cs : List Cursor),
      aheadAt p (before.length + k) (before ++ cs) =
        aheadAt (fun v => p v && holdAll v before) k cs := by
  induction before with
  | nil => intro p k cs; simp only [List.length_nil, Nat.zero_add, List.nil_append, holdAll,
      Bool.and_true]
  | cons c before ih =>
    intro p k cs
    rw [List.length_cons, Nat.add_right_comm, List.cons_append, aheadAt, ih]
    simp only [holdAll, Bool.and_assoc]

theorem aheadAt_eq_filter {cs : List Cursor} :
    ∀ {k : Nat} {c : Cursor}, cs[k]? = some c → ∀ p : Value → Bool,
      aheadAt p k cs = c.ahead.filter fun v => p v && holdAll v (cs.eraseIdx k) := by
  induction cs with
  | nil => intro k c hc; simp at hc
  | cons d ds ih =>
    intro k c hc p
    cases k with
    | zero =>
      rw [List.getElem?_cons_zero, Option.some.injEq] at hc
      rw [hc, aheadAt, List.eraseIdx_cons_zero]
    | succ k =>
      rw [List.getElem?_cons_succ] at hc
      rw [aheadAt, ih hc, List.eraseIdx_cons_succ]
      simp only [holdAll, Bool.and_assoc]

/-! ## 5. Pulling a tree -/

/-- What pulling a tree answers and leaves behind. -/
structure Pulled {σ : Type} (p : Value → Bool) (inv : σ → Prop) (post : Value → σ → Prop)
    (c : Cursor) (r : Option Value × Cursor × σ) : Prop where
  /-- The answer is the first value ahead that is accepted. -/
  value : r.1 = c.ahead.find? p
  /-- The values behind it are still ahead. -/
  ahead : r.2.1.ahead = past p c.ahead
  /-- Nothing but the traversal has changed. -/
  frame : r.2.1.rewound = c.rewound
  kept : inv r.2.2
  /-- After a success the whole tree stands on the value. -/
  stands : ∀ v, r.1 = some v → r.2.1.StandsOn v ∧ post v r.2.2

/-- What pulling the child of a join at a position answers and leaves
behind, with some children passed on the way. -/
structure PulledAt {σ : Type} (p : Value → Bool) (inv : σ → Prop) (post : Value → σ → Prop)
    (h : Head) (before : List Cursor) (k : Nat) (cs : List Cursor)
    (r : Option Value × Head × List Cursor × σ) : Prop where
  value : r.1 = (aheadAt (fun v => holdAll v before) k cs).find? p
  ahead : aheadAt (fun _ => true) (before.length + k) r.2.2.1 =
    past p (aheadAt (fun v => holdAll v before) k cs)
  head : r.2.1.clear = h.clear
  frame : rewoundAll r.2.2.1 = rewoundAll (before ++ cs)
  kept : inv r.2.2.2
  stands : ∀ v, r.1 = some v → r.2.1.last = some v ∧ StandAllOn v r.2.2.1 ∧ post v r.2.2.2

theorem pulled_nothing {σ : Type} {p : Value → Bool} {inv : σ → Prop} {post : Value → σ → Prop}
    {c : Cursor} {s : σ} (hc : c.ahead = []) (hs : inv s) : Pulled p inv post c (none, c, s) := by
  refine ⟨?_, ?_, rfl, hs, fun v hv => nomatch hv⟩
  · rw [hc]; rfl
  · rw [hc]; rfl

mutual

theorem pull_spec {σ : Type} {accept : Acceptance σ} {p : Value → Bool} {inv : σ → Prop}
    {post : Value → σ → Prop} (d : Decides accept p inv post) {s : σ} (hs : inv s) :
    ∀ c : Cursor, Pulled p inv post c (c.pull accept s).val
  | empty _ | inert _ | stub _ _ _ | wrapper _ _ => pulled_nothing rfl hs
  | listing l => by
      have r := Listing.pull_spec d l hs
      refine ⟨r.value, r.ahead, ?_, r.kept, r.stands⟩
      simp only [pull, Traced.val_bind, Traced.val_pure, rewound, r.frame]
  | alternates h l n k => by
      have r := Listing.pull_spec (numbering_decides d h) l (s := (h, k, s)) ⟨rfl, hs⟩
      refine ⟨r.value, r.ahead, ?_, r.kept.2, fun v hv => ?_⟩
      · simp only [pull, Traced.val_bind, Traced.val_pure, rewound, r.frame, r.kept.1]
      · obtain ⟨-, hlast, hk, hpost⟩ := r.stands v hv
        exact ⟨⟨hlast, hk⟩, hpost⟩
  | join h cs => by
      have r := pullAt_spec d hs h [] (Cost.driver (costs cs)) cs
      -- the driver is chosen by cost, and costs outlast the pull
      have hcosts := costs_eq_of_rewoundAll_eq (r.frame.trans (congrArg _ (List.nil_append cs)))
      refine ⟨r.value, ?_, ?_, r.kept, fun v hv => ?_⟩
      · simp only [pull, Traced.val_bind, Traced.val_pure, ahead, hcosts]
        exact (congrArg (aheadAt _ · _) (Nat.zero_add _).symm).trans r.ahead
      · simp only [pull, Traced.val_bind, Traced.val_pure, rewound, r.head, r.frame,
          List.nil_append]
      · obtain ⟨hlast, hcs, hpost⟩ := r.stands v hv
        exact ⟨⟨hlast, hcs⟩, hpost⟩
  | watch w i => by
      have r := pull_spec (reporting_decides d w) hs i
      refine ⟨r.value, r.ahead, ?_, r.kept, r.stands⟩
      simp only [pull, Traced.val_bind, Traced.val_pure, rewound, r.frame]

theorem pullAt_spec {σ : Type} {accept : Acceptance σ} {p : Value → Bool} {inv : σ → Prop}
    {post : Value → σ → Prop} (d : Decides accept p inv post) {s : σ} (hs : inv s) (h : Head)
    (before : List Cursor) :
    ∀ (k : Nat) (cs : List Cursor),
      PulledAt p inv post h before k cs (pullAt accept s h before k cs).val
  | k, [] => by
      have hnone := aheadAt_append before (fun _ => true) k []
      rw [List.append_nil, aheadAt] at hnone
      refine ⟨rfl, ?_, rfl, ?_, hs, fun v hv => nomatch hv⟩
      · simp only [pullAt, Traced.val_pure, aheadAt]
        exact hnone
      · rw [List.append_nil]; rfl
  | 0, c :: after => by
      have r := pull_spec (amid_decides d h before after) (s := (h, before, after, s))
        ⟨rfl, rfl, rfl, hs⟩ c
      obtain ⟨hh, hb, ha, hs'⟩ := r.kept
      have hlen := length_eq_of_releasedAll_eq hb
      refine ⟨?_, ?_, hh, ?_, hs', fun v hv => ?_⟩
      · simp only [aheadAt, List.find?_filter, Bool.decide_and, Bool.decide_eq_true]
        exact r.value
      · simp only [pullAt, Traced.val_bind, Traced.val_pure]
        rw [← hlen, aheadAt_append, aheadAt, aheadAt, ← filter_past, ← r.ahead]
        simp only [Bool.true_and, holdAll_eq_of_releasedAll_eq hb, holdAll_eq_of_releasedAll_eq ha]
      · simp only [pullAt, Traced.val_bind, Traced.val_pure, rewoundAll_append, rewoundAll,
          rewoundAll_eq_of_releasedAll_eq hb, rewoundAll_eq_of_releasedAll_eq ha, r.frame]
      · obtain ⟨hc, hlast, hbs, has, hpost⟩ := r.stands v hv
        exact ⟨hlast, standAllOn_append hbs ⟨hc, has⟩, hpost⟩
  | k + 1, c :: cs => by
      have r := pullAt_spec d hs h (before ++ [c]) k cs
      have hp : (fun v => holdAll v (before ++ [c])) = fun v => holdAll v before && c.holds v := by
        funext v
        rw [holdAll_append, holdAll, holdAll, Bool.and_true]
      refine ⟨?_, ?_, r.head, ?_, r.kept, r.stands⟩
      · rw [aheadAt, ← hp]
        exact r.value
      · rw [aheadAt, ← hp, ← r.ahead, List.length_append, List.length_singleton,
          Nat.add_assoc, Nat.add_comm 1 k]
        rfl
      · rw [List.append_cons]
        exact r.frame

end

/-! ## 6. The next value -/

/-- What a call of `next` answers and leaves behind. -/
structure Stepped (c : Cursor) (r : Option Value × Cursor) : Prop where
  value : r.1 = c.ahead.head?
  ahead : r.2.ahead = c.ahead.tail
  frame : r.2.rewound = c.rewound
  stands : ∀ v, r.1 = some v → r.2.StandsOn v

/-- One step of an enumeration takes the first of the values ahead. -/
theorem next_spec (c : Cursor) : Stepped c c.next.val := by
  have r := pull_spec decides_any (s := ()) trivial c
  refine ⟨?_, ?_, r.frame, fun v hv => (r.stands v hv).1⟩
  · have hall : c.ahead.filter (fun _ => true) = c.ahead :=
      List.filter_eq_self.2 fun _ _ => rfl
    rw [← hall, List.head?_filter]
    exact r.value
  · rw [← past_true]
    exact r.ahead

end Cursor

end CursorTree
