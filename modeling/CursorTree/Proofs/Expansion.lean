/-
CursorTree.Proofs.Expansion — a limited evaluation is the full expansion
cut off.

The full expansion of a tree is written down as a relation with two
phases, without a limit and without a bound on the number of moves:
between two values the next one is asked for and its row is written;
within a value a further binding is asked for, and each one there is gets
a row too.  `collect_cuts_expansion` says what `collect` makes of it under
any limit: its first rows, and a tree left exactly where the last of them
was written.

Where a tree stands is recorded together with everything noted on the way
to it (`Course`).  So "left exactly there" is more than equality of trees:
no watch anywhere in the tree has been called once more.

The bound on moves that `collect` passes to `gather` disappears here:
`bindingsLeft` counts the bindings a tree can still be moved to, every move
takes one away, and the bound exceeds it (`bindingsLeft_le_rowsAhead`).
-/
import CursorTree.Collect
import CursorTree.Proofs.Enumeration

namespace CursorTree

/-! ## 1. Courses -/

/-- A tree together with everything noted on the way to it. -/
abbrev Course := Traced Cursor

namespace Course

variable {α β : Type}

/-- Asks the tree something that may move it. -/
def ask (s : Course) (f : Cursor → Traced (α × Cursor)) : α × Course :=
  let r := s >>= f
  (r.val.1, ⟨r.val.2, r.log⟩)

theorem ask_bind (s : Course) (f : Cursor → Traced (α × Cursor))
    (g : α × Cursor → Traced (β × Cursor)) :
    s.ask (fun c => f c >>= g) = (s.ask f).2.ask fun c => g ((s.ask f).1, c) := by
  simp only [ask, Traced.val_bind, Traced.log_bind, List.append_assoc]

/-- The row of a tree, written without moving it. -/
def written (c : Cursor) : Traced (Row × Cursor) := do
  return (← c.bindings, c)

@[simp] theorem ask_pure (s : Course) (a : α) : s.ask (fun c => pure (a, c)) = (a, s) := by
  simp only [ask, Traced.val_bind, Traced.log_bind, Traced.val_pure, Traced.log_pure,
    List.append_nil]

/-- An answer that notes nothing leaves a course without notes. -/
theorem ask_of_eq {c d : Cursor} {f : Cursor → Traced (α × Cursor)} {x : α}
    (hf : f c = pure (x, d)) : ask (pure c) f = (x, pure d) := by
  simp only [ask, Traced.val_bind, Traced.log_bind, Traced.val_pure, Traced.log_pure, hf]
  rfl

/-- What is asked of a tree after its row has been written. -/
theorem ask_bindings (s : Course) (g : Row → Cursor → Traced (β × Cursor)) :
    s.ask (fun c => c.bindings >>= fun row => g row c) =
      (s.ask written).2.ask (g (s.ask written).1) := by
  simp only [ask, written, Traced.val_bind, Traced.log_bind, Traced.val_pure, Traced.log_pure,
    List.append_nil, List.append_assoc]

end Course

/-- A row, and where the tree stood when it had been written. -/
structure Binding where
  row : Row
  course : Course

/-- Whether the full expansion is about to ask for a value or has just
written a row. -/
inductive Phase where
  | between
  | within

/-- The full expansion of a tree: the bindings from where it stands on, and
where it ends. -/
inductive Expansion : Phase → Course → List Binding → Course → Prop
  /-- No value is left. -/
  | exhausted {s s' : Course} (hnext : s.ask Cursor.next = (none, s')) :
      Expansion .between s [] s'
  /-- A value is there, and its row is written. -/
  | value {s s₁ s₂ s' : Course} {v : Value} {row : Row} {bs : List Binding}
      (hnext : s.ask Cursor.next = (some v, s₁)) (hrow : s₁.ask Course.written = (row, s₂))
      (rest : Expansion .within s₂ bs s') : Expansion .between s (⟨row, s₂⟩ :: bs) s'
  /-- The value has a further binding, and its row is written. -/
  | further {s s₁ s₂ s' : Course} {row : Row} {bs : List Binding}
      (hmore : s.ask Cursor.nextResult = (true, s₁)) (hrow : s₁.ask Course.written = (row, s₂))
      (rest : Expansion .within s₂ bs s') : Expansion .within s (⟨row, s₂⟩ :: bs) s'
  /-- The value has no further binding. -/
  | spent {s s₁ s' : Course} {bs : List Binding}
      (hmore : s.ask Cursor.nextResult = (false, s₁)) (rest : Expansion .between s₁ bs s') :
      Expansion .within s bs s'

/-- As many bindings as a limit allows. -/
def cut (limit : Option Nat) (bs : List Binding) : List Binding :=
  match limit with
  | none => bs
  | some n => bs.take n

/-- Where an evaluation halts: at the start when no row is allowed, at the
last row allowed when there is one, and otherwise at the end. -/
def halt (limit : Option Nat) (start : Course) (bs : List Binding) (final : Course) : Course :=
  match limit with
  | none => final
  | some 0 => start
  | some (n + 1) =>
    match bs[n]? with
    | some b => b.course
    | none => final

theorem expansion_unique {ph : Phase} {s final : Course} {bs : List Binding}
    (e : Expansion ph s bs final) :
    ∀ {bs' : List Binding} {final' : Course}, Expansion ph s bs' final' →
      bs' = bs ∧ final' = final := by
  induction e with
  | exhausted hnext =>
    intro bs' final' e'
    cases e' with
    | exhausted hnext' => cases hnext.symm.trans hnext'; exact ⟨rfl, rfl⟩
    | value hnext' _ _ => cases hnext.symm.trans hnext'
  | value hnext hrow _ ih =>
    intro bs' final' e'
    cases e' with
    | exhausted hnext' => cases hnext.symm.trans hnext'
    | value hnext' hrow' rest' =>
      cases hnext.symm.trans hnext'
      cases hrow.symm.trans hrow'
      obtain ⟨rfl, rfl⟩ := ih rest'
      exact ⟨rfl, rfl⟩
  | further hmore hrow _ ih =>
    intro bs' final' e'
    cases e' with
    | further hmore' hrow' rest' =>
      cases hmore.symm.trans hmore'
      cases hrow.symm.trans hrow'
      obtain ⟨rfl, rfl⟩ := ih rest'
      exact ⟨rfl, rfl⟩
    | spent hmore' _ => cases hmore.symm.trans hmore'
  | spent hmore _ ih =>
    intro bs' final' e'
    cases e' with
    | further hmore' _ _ => cases hmore.symm.trans hmore'
    | spent hmore' rest' =>
      cases hmore.symm.trans hmore'
      exact ih rest'

namespace Cursor

/-! ## 2. How many bindings are left -/

/-- How many further bindings the value has that a tree stands on. -/
def furtherLeft : Cursor → Nat
  | alternates _ _ n k => n.toNat - k.toNat
  | watch _ i => i.furtherLeft
  | _ => 0

/-- How many further bindings each value of a tree has. -/
def furtherEach : Cursor → Nat
  | alternates _ _ n _ => n.toNat
  | watch _ i => i.furtherEach
  | _ => 0

/-- How many bindings a tree can still be moved to. -/
def bindingsLeft (c : Cursor) : Nat :=
  c.furtherLeft + c.ahead.length * (c.furtherEach + 1)

theorem furtherEach_rewound (c : Cursor) : c.rewound.furtherEach = c.furtherEach := by
  fun_induction head c with
  | case1 | case2 | case3 | case4 | case5 | case6 | case7 => rfl
  | case8 _ i ih => rw [rewound, furtherEach, furtherEach, ih]

/-- A tree that has just moved to a value has all its further bindings left. -/
theorem furtherLeft_of_standsOn {v : Value} :
    ∀ {c : Cursor}, c.StandsOn v → c.furtherLeft = c.furtherEach
  | listing _, _ => rfl
  | alternates _ _ n k, h => by
      rw [furtherLeft, furtherEach, h.2, UInt64.toNat_zero, Nat.sub_zero]
  | join _ _, _ => rfl
  | watch _ i, h => furtherLeft_of_standsOn (c := i) h

/-- What a call of `nextResult` answers and leaves behind. -/
structure Furthered (c : Cursor) (r : Bool × Cursor) : Prop where
  answer : r.1 = decide (0 < c.furtherLeft)
  left : r.2.furtherLeft = c.furtherLeft - 1
  each : r.2.furtherEach = c.furtherEach
  ahead : r.2.ahead = c.ahead

theorem nextResult_spec : ∀ c : Cursor, Furthered c c.nextResult.val
  | empty _ | listing _ | inert _ | stub _ _ _ | wrapper _ _ | join _ _ => ⟨rfl, rfl, rfl, rfl⟩
  | alternates h l n k => by
      have hone : (1 : UInt64).toNat = 1 := rfl
      have hn := n.toNat_lt
      rw [nextResult]
      split
      next hlt =>
        have hlt' := UInt64.lt_iff_toNat_lt.1 hlt
        refine ⟨?_, ?_, rfl, rfl⟩
        · simp only [Traced.val_pure, furtherLeft]
          exact (decide_eq_true (by omega)).symm
        · simp only [Traced.val_pure, furtherLeft, UInt64.toNat_add, hone]
          rw [Nat.mod_eq_of_lt (by omega)]
          omega
      next hge =>
        have hge' : ¬ k.toNat < n.toNat := fun hlt => hge (UInt64.lt_iff_toNat_lt.2 hlt)
        refine ⟨?_, ?_, rfl, rfl⟩
        · simp only [Traced.val_pure, furtherLeft]
          exact (decide_eq_false (by omega)).symm
        · simp only [Traced.val_pure, furtherLeft]
          omega
  | watch w i => by
      have r := nextResult_spec i
      exact ⟨r.answer, r.left, r.each, r.ahead⟩

theorem bindingsLeft_of_further {c : Cursor} (h : c.nextResult.val.1 = true) :
    c.nextResult.val.2.bindingsLeft + 1 = c.bindingsLeft := by
  have r := nextResult_spec c
  have hpos : 0 < c.furtherLeft := of_decide_eq_true (r.answer.symm.trans h)
  rw [bindingsLeft, bindingsLeft, r.left, r.each, r.ahead]
  omega

theorem bindingsLeft_of_spent {c : Cursor} (h : c.nextResult.val.1 = false) :
    c.nextResult.val.2.bindingsLeft = c.bindingsLeft := by
  have r := nextResult_spec c
  have hzero : ¬ 0 < c.furtherLeft := of_decide_eq_false (r.answer.symm.trans h)
  rw [bindingsLeft, bindingsLeft, r.left, r.each, r.ahead]
  omega

theorem bindingsLeft_of_next {c : Cursor} {v : Value} (h : c.next.val.1 = some v) :
    c.next.val.2.bindingsLeft < c.bindingsLeft := by
  have r := next_spec c
  have heach : c.next.val.2.furtherEach = c.furtherEach := by
    rw [← furtherEach_rewound, r.frame, furtherEach_rewound]
  obtain ⟨vs, hvs⟩ : ∃ vs, c.ahead = v :: vs :=
    List.head?_eq_some_iff.1 (r.value.symm.trans h)
  rw [bindingsLeft, bindingsLeft, furtherLeft_of_standsOn (r.stands v h), r.ahead, heach, hvs,
    List.tail_cons, List.length_cons, Nat.succ_mul]
  omega

mutual

theorem ahead_length_le : ∀ c : Cursor, c.ahead.length ≤ c.pendingCount
  | empty _ | inert _ | stub _ _ _ | wrapper _ _ => Nat.le_refl 0
  | listing l => Nat.le_refl l.pending.length
  | alternates _ l _ _ => Nat.le_refl l.pending.length
  | join _ cs => aheadAt_length_le _ _ cs
  | watch _ i => ahead_length_le i

theorem aheadAt_length_le (p : Value → Bool) :
    ∀ (k : Nat) (cs : List Cursor), (aheadAt p k cs).length ≤ pendingCounts cs
  | _, [] => by rw [aheadAt]; exact Nat.zero_le _
  | 0, c :: after => by
      rw [aheadAt, pendingCounts]
      exact Nat.le_trans (List.length_filter_le _ _)
        (Nat.le_trans (ahead_length_le c) (Nat.le_add_right _ _))
  | k + 1, c :: cs => by
      rw [aheadAt, pendingCounts]
      exact Nat.le_trans (aheadAt_length_le _ k cs) (Nat.le_add_left _ _)

end

/-- The moves that an evaluation allows itself are enough. -/
theorem bindingsLeft_le_rowsAhead : ∀ c : Cursor, c.bindingsLeft ≤ c.rowsAhead
  | empty _ | inert _ | stub _ _ _ | wrapper _ _ => Nat.le_refl 0
  | listing l => by simp [bindingsLeft, rowsAhead, pendingCount, furtherLeft, furtherEach, ahead]
  | alternates _ l n k => Nat.le_refl _
  | join _ cs => by
      simp only [bindingsLeft, rowsAhead, furtherLeft, furtherEach, ahead, pendingCount]
      have := aheadAt_length_le (fun _ => true) (Cost.driver (costs cs)) cs
      omega
  | watch _ i => bindingsLeft_le_rowsAhead i

end Cursor

/-! ## 3. Every tree has an expansion -/

theorem expansion_exists (n : Nat) :
    ∀ s : Course, s.val.bindingsLeft < n →
      (∃ bs final, Expansion .between s bs final) ∧ ∃ bs final, Expansion .within s bs final := by
  induction n with
  | zero => intro s hs; exact absurd hs (Nat.not_lt_zero _)
  | succ n ih =>
    intro s hs
    have between : ∀ t : Course, t.val.bindingsLeft < n + 1 →
        ∃ bs final, Expansion .between t bs final := by
      intro t ht
      cases hv : (t.ask Cursor.next).1 with
      | none => exact ⟨[], _, .exhausted (Prod.ext hv rfl)⟩
      | some v =>
        have hless := Cursor.bindingsLeft_of_next hv
        obtain ⟨bs, final, e⟩ := (ih ((t.ask Cursor.next).2.ask Course.written).2
          (Nat.lt_of_lt_of_le hless (Nat.le_of_lt_succ ht))).2
        exact ⟨_, final, .value (Prod.ext hv rfl) rfl e⟩
    refine ⟨between s hs, ?_⟩
    cases hmore : (s.ask Cursor.nextResult).1 with
    | true =>
      have hless := Cursor.bindingsLeft_of_further hmore
      obtain ⟨bs, final, e⟩ := (ih ((s.ask Cursor.nextResult).2.ask Course.written).2
        (Nat.lt_of_succ_lt_succ (Nat.lt_of_le_of_lt (Nat.le_of_eq hless) hs))).2
      exact ⟨_, final, .further (Prod.ext hmore rfl) rfl e⟩
    | false =>
      have hsame := Cursor.bindingsLeft_of_spent hmore
      obtain ⟨bs, final, e⟩ := between (s.ask Cursor.nextResult).2 (hsame ▸ hs)
      exact ⟨bs, final, .spent (Prod.ext hmore rfl) e⟩

/-! ## 4. Gathering follows the expansion -/

theorem ask_advance_further {s s₁ : Course} (h : s.ask Cursor.nextResult = (true, s₁)) :
    s.ask Cursor.advance = (true, s₁) := by
  refine (Course.ask_bind s Cursor.nextResult _).trans ?_
  rw [h]
  exact Course.ask_pure s₁ true

theorem ask_advance_spent {s s₁ s₂ : Course} {v : Option Value}
    (h : s.ask Cursor.nextResult = (false, s₁)) (hv : s₁.ask Cursor.next = (v, s₂)) :
    s.ask Cursor.advance = (v.isSome, s₂) := by
  refine (Course.ask_bind s Cursor.nextResult _).trans ?_
  rw [h]
  refine (Course.ask_bind s₁ Cursor.next _).trans ?_
  rw [hv]
  exact Course.ask_pure s₂ v.isSome

theorem cut_cons {room : Option Nat} (h0 : room ≠ some 0) (b : Binding) (bs : List Binding) :
    cut room (b :: bs) = b :: cut (room.map (· - 1)) bs := by
  match room with
  | none => rfl
  | some 0 => exact absurd rfl h0
  | some (n + 1) => rfl

theorem cut_nil (room : Option Nat) : cut room [] = [] := by
  cases room with
  | none => rfl
  | some n => exact List.take_nil

theorem length_cut (limit : Option Nat) (bs : List Binding) :
    (cut limit bs).length = limit.elim bs.length (min bs.length) := by
  cases limit with
  | none => rfl
  | some n => exact (List.length_take).trans (Nat.min_comm _ _)

theorem getElem?_of_cut {limit : Option Nat} {bs : List Binding} {j : Nat} {b : Binding}
    (hb : (cut limit bs)[j]? = some b) : bs[j]? = some b := by
  cases limit with
  | none => exact hb
  | some n =>
    rw [cut, List.getElem?_take] at hb
    split at hb
    next => exact hb
    next => exact nomatch hb

theorem halt_cons {room : Option Nat} (h0 : room ≠ some 0) (h1 : room ≠ some 1)
    (s s' : Course) (b : Binding) (bs : List Binding) (final : Course) :
    halt room s (b :: bs) final = halt (room.map (· - 1)) s' bs final := by
  match room with
  | none => rfl
  | some 0 => exact absurd rfl h0
  | some 1 => exact absurd rfl h1
  | some (n + 2) => rfl

/-- Where an evaluation starts matters only when no row is allowed. -/
theorem halt_start {room : Option Nat} (h0 : room ≠ some 0) (s s' : Course) (bs : List Binding)
    (final : Course) : halt room s bs final = halt room s' bs final := by
  match room with
  | none => rfl
  | some 0 => exact absurd rfl h0
  | some (n + 1) => rfl

theorem halt_nil {room : Option Nat} (h0 : room ≠ some 0) (s final : Course) :
    halt room s [] final = final := by
  match room with
  | none => rfl
  | some 0 => exact absurd rfl h0
  | some (n + 1) => rfl

theorem room_pred_ne_zero {room : Option Nat} (h0 : room ≠ some 0) (h1 : room ≠ some 1) :
    room.map (· - 1) ≠ some 0 := by
  match room with
  | none => exact fun h => nomatch h
  | some 0 => exact absurd rfl h0
  | some 1 => exact absurd rfl h1
  | some (n + 2) => exact fun h => nomatch h

section Gather

variable {moves : Nat} {room : Option Nat} {s s₂ s₃ : Course} {row : Row}

theorem ask_gather_one (hrow : s.ask Course.written = (row, s₂)) :
    s.ask (Cursor.gather moves (some 1)) = ([row], s₂) := by
  cases moves
  all_goals
    refine (Course.ask_bindings s _).trans ?_
    rw [hrow]
    exact Course.ask_pure s₂ [row]

theorem ask_gather_last (h1 : room ≠ some 1) (hrow : s.ask Course.written = (row, s₂))
    (hadv : s₂.ask Cursor.advance = (false, s₃)) :
    s.ask (Cursor.gather (moves + 1) room) = ([row], s₃) := by
  refine (Course.ask_bindings s _).trans ?_
  simp only [hrow, if_neg h1]
  refine (Course.ask_bind s₂ Cursor.advance _).trans ?_
  rw [hadv]
  exact Course.ask_pure s₃ [row]

theorem ask_gather_more (h1 : room ≠ some 1) (hrow : s.ask Course.written = (row, s₂))
    (hadv : s₂.ask Cursor.advance = (true, s₃)) :
    s.ask (Cursor.gather (moves + 1) room) =
      let r := s₃.ask (Cursor.gather moves (room.map (· - 1)))
      (row :: r.1, r.2) := by
  refine (Course.ask_bindings s _).trans ?_
  simp only [hrow, if_neg h1]
  refine (Course.ask_bind s₂ Cursor.advance _).trans ?_
  rw [hadv]
  refine (Course.ask_bind s₃ (Cursor.gather moves (room.map (· - 1))) _).trans ?_
  exact Course.ask_pure _ _

end Gather

/-- Gathering from a binding takes its row and those of the expansion from
there, as far as there is room. -/
theorem ask_gather (moves : Nat) :
    ∀ {room : Option Nat} {s s₂ final : Course} {row : Row} {bs : List Binding},
      room ≠ some 0 → s.ask Course.written = (row, s₂) → Expansion .within s₂ bs final →
      s.val.bindingsLeft < moves →
      s.ask (Cursor.gather moves room) =
        ((cut room (⟨row, s₂⟩ :: bs)).map Binding.row, halt room s (⟨row, s₂⟩ :: bs) final) := by
  induction moves with
  | zero => intro room s s₂ final row bs _ _ _ hs; exact absurd hs (Nat.not_lt_zero _)
  | succ moves ih =>
    intro room s s₂ final row bs h0 hrow e hs
    by_cases h1 : room = some 1
    · subst h1
      exact ask_gather_one hrow
    have hs₂ : s₂.val.bindingsLeft < moves + 1 := by
      rw [← congrArg (fun r => r.2.val) hrow]
      exact hs
    have h0' := room_pred_ne_zero h0 h1
    rw [cut_cons h0, List.map_cons]
    cases e with
    | @further _ s₃ _ _ _ _ hmore hrow' rest =>
      have hless := Cursor.bindingsLeft_of_further (congrArg Prod.fst hmore)
      have hs₃ : s₃.val.bindingsLeft < moves := by
        rw [← congrArg (fun r => r.2.val) hmore]
        exact Nat.lt_of_succ_lt_succ (Nat.lt_of_le_of_lt (Nat.le_of_eq hless) hs₂)
      rw [ask_gather_more h1 hrow (ask_advance_further hmore), ih h0' hrow' rest hs₃,
        halt_cons h0 h1 s s₃]
    | @spent _ s₁ _ _ hmore rest =>
      have hsame := Cursor.bindingsLeft_of_spent (congrArg Prod.fst hmore)
      cases rest with
      | exhausted hnext =>
        rw [ask_gather_last h1 hrow (ask_advance_spent hmore hnext), halt_cons h0 h1 s s₂,
          halt_nil h0', cut_nil, List.map_nil]
      | @value _ s₃ _ _ _ _ _ hnext hrow' rest' =>
        have hless := Cursor.bindingsLeft_of_next (congrArg Prod.fst hnext)
        have hs₃ : s₃.val.bindingsLeft < moves := by
          rw [← congrArg (fun r => r.2.val) hnext]
          refine Nat.lt_of_lt_of_le hless (Nat.le_of_lt_succ ?_)
          rw [← congrArg (fun r => r.2.val) hmore]
          exact Nat.lt_of_le_of_lt (Nat.le_of_eq hsame) hs₂
        rw [ask_gather_more h1 hrow (ask_advance_spent hmore hnext), ih h0' hrow' rest' hs₃,
          halt_cons h0 h1 s s₃]

theorem ask_rows (limit : Option Nat) {s final : Course} {bs : List Binding}
    (e : Expansion .between s bs final) :
    s.ask (Cursor.rows limit) = ((cut limit bs).map Binding.row, halt limit s bs final) := by
  by_cases h0 : limit = some 0
  · subst h0
    exact Course.ask_pure s []
  unfold Cursor.rows
  simp only [if_neg h0]
  rw [Course.ask_bind]
  cases e with
  | exhausted hnext =>
    rw [hnext, halt_nil h0, cut_nil, List.map_nil]
    exact Course.ask_pure _ _
  | @value _ s₁ _ _ _ _ _ hnext hrow rest =>
    rw [hnext, halt_start h0 s s₁]
    exact ask_gather (s₁.val.rowsAhead + 1) h0 hrow rest
      (Nat.lt_succ_of_le (Cursor.bindingsLeft_le_rowsAhead s₁.val))

/-! ## 5. Evaluation under a limit -/

/-- Evaluating a tree under a limit gives the first rows of its full
expansion, which is one and the same for every limit.  The tree is left
where the last of these rows was written, with nothing asked of it after
that; at its start when no row is allowed, and at the end of the expansion
when the limit is beyond it or absent. -/
theorem collect_cuts_expansion (c : Cursor) :
    ∃ bs final, Expansion .between (pure c) bs final ∧
      (∀ bs' final', Expansion .between (pure c) bs' final' → bs' = bs ∧ final' = final) ∧
      ∀ limit : Option Nat,
        (c.collect limit).val.1.rows = (cut limit bs).map Binding.row ∧
        (c.collect limit).val.2 = (halt limit (pure c) bs final).val ∧
        (c.collect limit).calls = (halt limit (pure c) bs final).calls := by
  obtain ⟨bs, final, e⟩ := (expansion_exists _ (pure c) (Nat.lt_succ_self _)).1
  refine ⟨bs, final, e, fun _ _ e' => expansion_unique e e', fun limit => ?_⟩
  have h := ask_rows limit e
  obtain ⟨hval, hcalls⟩ := Cursor.collect_spec limit c
  refine ⟨?_, ?_, ?_⟩
  · rw [hval, Table.rows_pushAll]
    exact congrArg Prod.fst h
  · rw [hval]
    exact congrArg (fun r => r.2.val) h
  · rw [hcalls]
    exact congrArg (fun r => r.2.calls) h

end CursorTree
