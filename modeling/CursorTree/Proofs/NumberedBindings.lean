/-
CursorTree.Proofs.NumberedBindings — the rows of a cursor with alternates,
counted.

A cursor with alternates has two counters, the position in its list and the
number of the binding it stands on, and an evaluation counts rows.  When each
value has `a` further bindings, row `j` is of the value at position
`j / (a + 1)` and is numbered `j % (a + 1)`.

The induction is on the full expansion, in either of its phases: `Due` says
where the cursor is when row `j` is due.  Each rule of the expansion leads
from one such place to the next one, so the expansion from the start writes
rows 0, 1, … up to the last one (`numbered_of_expansion`).  How an evaluation
under a limit cuts an expansion off does not depend on the kind of cursor
(`ask_rows`).
-/
import CursorTree.Proofs.Expansion
import CursorTree.Proofs.RowBindings

namespace CursorTree

namespace Cursor

/-- A row has the tags of a registry and the number of a binding, and no
other tags.  The number wins where the registry has its tag, too. -/
structure NumberedRow (t : Tags) (v : Value) (k : UInt64) (row : Row) : Prop where
  number : row.get? alternateTag = some (some (.id k))
  current : ∀ n ∈ t.dynamic, n ≠ alternateTag → t.fixed.get? n = none →
    row.get? n = some (some v)
  fixed : ∀ n x, n ≠ alternateTag → t.fixed.get? n = some x → row.get? n = some (some x)
  mem_keys : ∀ n, n ∈ row.keys ↔ n = alternateTag ∨ t.Has n

/-- Binding `j` is the one numbered `k` of the value at position `p`, when
bindings are counted over all values. -/
structure Placed (vs : List Value) (a : UInt64) (j p : Nat) (v : Value) (k : UInt64) : Prop where
  value : vs[p]? = some v
  number_le : k.toNat ≤ a.toNat
  index : j = p * (a.toNat + 1) + k.toNat

/-! ## 1. Quotient and remainder -/

section Placed

variable {vs : List Value} {a : UInt64} {j p : Nat} {v : Value} {k : UInt64}

theorem Placed.div_mod (h : Placed vs a j p v k) :
    j / (a.toNat + 1) = p ∧ j % (a.toNat + 1) = k.toNat := by
  refine (Nat.div_mod_unique (Nat.succ_pos _)).2 ⟨?_, Nat.lt_succ_of_le h.number_le⟩
  rw [h.index, Nat.mul_comm, Nat.add_comm]

theorem Placed.lt_length (h : Placed vs a j p v k) : p < vs.length :=
  (List.getElem?_eq_some_iff.1 h.value).1

theorem placed_first (h : vs[p]? = some v) : Placed vs a (p * (a.toNat + 1)) p v 0 :=
  ⟨h, Nat.zero_le _, rfl⟩

theorem Placed.further (h : Placed vs a j p v k) (hlt : k < a) :
    Placed vs a (j + 1) p v (k + 1) := by
  have hlt := UInt64.lt_iff_toNat_lt.1 hlt
  have hsucc : (k + 1).toNat = k.toNat + 1 := by
    have ha := a.toNat_lt
    rw [UInt64.toNat_add, UInt64.toNat_one, Nat.mod_eq_of_lt (by omega)]
  refine ⟨h.value, ?_, ?_⟩
  · rw [hsucc]; exact hlt
  · rw [hsucc, h.index, Nat.add_assoc]

/-- Behind the last binding of a value the next position begins. -/
theorem Placed.spent (h : Placed vs a j p v k) (hge : ¬ k < a) :
    j + 1 = (p + 1) * (a.toNat + 1) := by
  have hle := h.number_le
  have hge : ¬ k.toNat < a.toNat := fun hlt => hge (UInt64.lt_iff_toNat_lt.2 hlt)
  rw [h.index, Nat.succ_mul]
  omega

end Placed

/-! ## 2. One move -/

theorem standOn_eq_of_clear_eq {g h : Head} (hg : g.clear = h.clear) (v : Value) :
    g.standOn v = h.standOn v :=
  congrArg (·.standOn v) hg

section Moves

variable {g i : Head} {vs : List Value} {p : Nat} {a k : UInt64}

theorem next_alternates {v : Value} (hv : vs[p]? = some v) :
    (alternates g ⟨i, vs, p⟩ a k).next =
      pure (some v, alternates (g.standOn v) ⟨i.standOn v, vs, p + 1⟩ a 0) := by
  obtain ⟨hp, rfl⟩ := List.getElem?_eq_some_iff.1 hv
  simp only [next, pull, Listing.pull, Listing.pending, List.drop_eq_getElem_cons hp]
  rfl

theorem next_alternates_exhausted (hv : vs[p]? = none) :
    (alternates g ⟨i, vs, p⟩ a k).next = pure (none, alternates g ⟨i, vs, p⟩ a k) := by
  have hp := List.getElem?_eq_none_iff.1 hv
  simp only [next, pull, Listing.pull, Listing.pending, List.drop_eq_nil_of_le hp]
  rfl

theorem nextResult_alternates_further (hlt : k < a) :
    (alternates g ⟨i, vs, p⟩ a k).nextResult =
      pure (true, alternates g ⟨i, vs, p⟩ a (k + 1)) :=
  if_pos hlt

theorem nextResult_alternates_spent (hge : ¬ k < a) :
    (alternates g ⟨i, vs, p⟩ a k).nextResult = pure (false, alternates g ⟨i, vs, p⟩ a k) :=
  if_neg hge

end Moves

/-- The row of a value under a registry, with the number of the binding. -/
def numberedRow (t : Tags) (v : Value) (k : UInt64) : Row :=
  (t.write (some v) .empty).insert alternateTag (some (.id k))

theorem numberedRow_spec (t : Tags) (v : Value) (k : UInt64) :
    NumberedRow t v k (numberedRow t v k) := by
  have hother : ∀ n, n ≠ alternateTag →
      (numberedRow t v k).get? n = (t.write (some v) .empty).get? n := fun n hn => by
    rw [numberedRow, Dict.get?_insert, if_neg hn]
  have hnumber : (numberedRow t v k).get? alternateTag = some (some (.id k)) := by
    rw [numberedRow, Dict.get?_insert, if_pos rfl]
  refine ⟨hnumber, fun n hn hne hfixed => ?_, fun n x hne hfixed => ?_, fun n => ?_⟩
  · rw [hother n hne, Tags.get?_write_of_has (.inl hn), Tags.valueOf, hfixed]
    rfl
  · rw [hother n hne, Tags.get?_write, hfixed]
    rfl
  · by_cases hne : n = alternateTag
    · rw [Dict.mem_keys, hne, hnumber]
      simp
    · rw [Dict.mem_keys, hother n hne, ← Dict.mem_keys, Tags.mem_keys_write, or_iff_right hne]
      exact or_iff_left List.not_mem_nil

/-! ## 3. The expansion counted -/

section Expansion

variable (h own : Head) (vs : List Value) (a : UInt64)

/-- Row `j` has been written, and the cursor stands on its binding. -/
def WrittenAt (j : Nat) (b : Binding) : Prop :=
  ∃ p v k, Placed vs a j p v k ∧
    b = ⟨numberedRow h.tags v k, pure (alternates (h.standOn v) ⟨own.standOn v, vs, p + 1⟩ a k)⟩

/-- Where the cursor is when row `j` is due: about to be asked for the value
at some position, or on the binding of the row before. -/
inductive Due : Phase → Nat → Course → Prop
  | between {g i : Head} {p : Nat} {k : UInt64} (hg : g.clear = h.clear) (hi : i.clear = own.clear)
      (hp : p ≤ vs.length) :
      Due .between (p * (a.toNat + 1)) (pure (alternates g ⟨i, vs, p⟩ a k))
  | within {j p : Nat} {v : Value} {k : UInt64} (hplaced : Placed vs a j p v k) :
      Due .within (j + 1) (pure (alternates (h.standOn v) ⟨own.standOn v, vs, p + 1⟩ a k))

/-- Rows from `j` on, up to the last binding of the last value. -/
structure Numbered (j : Nat) (bs : List Binding) : Prop where
  length : j + bs.length = vs.length * (a.toNat + 1)
  written : ∀ i b, bs[i]? = some b → WrittenAt h own vs a (j + i) b

variable {h own vs a}

theorem Numbered.cons {j : Nat} {b : Binding} {bs : List Binding} (hb : WrittenAt h own vs a j b)
    (hbs : Numbered h own vs a (j + 1) bs) : Numbered h own vs a j (b :: bs) := by
  refine ⟨?_, fun i b' hb' => ?_⟩
  · rw [List.length_cons, ← hbs.length]
    omega
  · cases i with
    | zero => exact Option.some.inj hb' ▸ hb
    | succ i =>
      have hrest := hbs.written i b' hb'
      rwa [Nat.add_right_comm] at hrest

theorem WrittenAt.quotient {j : Nat} {b : Binding} (hb : WrittenAt h own vs a j b) :
    ∃ v k, vs[j / (a.toNat + 1)]? = some v ∧ k.toNat = j % (a.toNat + 1) ∧
      NumberedRow h.tags v k b.row ∧
      b.course.val =
        alternates (h.standOn v) ⟨own.standOn v, vs, j / (a.toNat + 1) + 1⟩ a k := by
  obtain ⟨p, v, k, hplaced, rfl⟩ := hb
  obtain ⟨hdiv, hmod⟩ := hplaced.div_mod
  rw [hdiv, hmod]
  exact ⟨v, k, hplaced.value, rfl, numberedRow_spec h.tags v k, rfl⟩

/-- Row `j` is written, and the next one is due. -/
theorem due_written {j p : Nat} {v : Value} {k : UInt64} {row : Row} {s : Course}
    (hplaced : Placed vs a j p v k)
    (hrow : Course.ask (pure (alternates (h.standOn v) ⟨own.standOn v, vs, p + 1⟩ a k))
      Course.written = (row, s)) :
    WrittenAt h own vs a j ⟨row, s⟩ ∧ Due h own vs a .within (j + 1) s := by
  cases (Course.ask_of_eq rfl).symm.trans hrow
  exact ⟨⟨p, v, k, hplaced, rfl⟩, .within hplaced⟩

section Rules

variable {j : Nat} {s s₁ s₂ : Course} {row : Row}

theorem Due.exhausted (hdue : Due h own vs a .between j s)
    (hnext : s.ask Cursor.next = (none, s₁)) : j = vs.length * (a.toNat + 1) := by
  cases hdue with
  | @between g i p k hg hi hp =>
    cases hv : vs[p]? with
    | none => rw [Nat.le_antisymm hp (List.getElem?_eq_none_iff.1 hv)]
    | some v => cases (Course.ask_of_eq (next_alternates hv)).symm.trans hnext

theorem Due.value {v : Value} (hdue : Due h own vs a .between j s)
    (hnext : s.ask Cursor.next = (some v, s₁)) (hrow : s₁.ask Course.written = (row, s₂)) :
    WrittenAt h own vs a j ⟨row, s₂⟩ ∧ Due h own vs a .within (j + 1) s₂ := by
  cases hdue with
  | @between g i p k hg hi hp =>
    cases hv : vs[p]? with
    | none => cases (Course.ask_of_eq (next_alternates_exhausted hv)).symm.trans hnext
    | some w =>
      cases (Course.ask_of_eq (next_alternates hv)).symm.trans hnext
      rw [standOn_eq_of_clear_eq hg, standOn_eq_of_clear_eq hi] at hrow
      exact due_written (placed_first hv) hrow

theorem Due.further (hdue : Due h own vs a .within j s)
    (hmore : s.ask Cursor.nextResult = (true, s₁)) (hrow : s₁.ask Course.written = (row, s₂)) :
    WrittenAt h own vs a j ⟨row, s₂⟩ ∧ Due h own vs a .within (j + 1) s₂ := by
  cases hdue with
  | @within j p v k hplaced =>
    by_cases hlt : k < a
    · cases (Course.ask_of_eq (nextResult_alternates_further hlt)).symm.trans hmore
      exact due_written (hplaced.further hlt) hrow
    · cases (Course.ask_of_eq (nextResult_alternates_spent hlt)).symm.trans hmore

theorem Due.spent (hdue : Due h own vs a .within j s)
    (hmore : s.ask Cursor.nextResult = (false, s₁)) : Due h own vs a .between j s₁ := by
  cases hdue with
  | @within j p v k hplaced =>
    by_cases hlt : k < a
    · cases (Course.ask_of_eq (nextResult_alternates_further hlt)).symm.trans hmore
    · cases (Course.ask_of_eq (nextResult_alternates_spent hlt)).symm.trans hmore
      rw [hplaced.spent hlt]
      exact .between rfl rfl hplaced.lt_length

end Rules

/-- An expansion from where row `j` is due writes that row and all after it. -/
theorem numbered_of_expansion {ph : Phase} {s final : Course} {bs : List Binding}
    (e : Expansion ph s bs final) :
    ∀ {j : Nat}, Due h own vs a ph j s → Numbered h own vs a j bs := by
  induction e with
  | exhausted hnext =>
    intro j hdue
    exact ⟨hdue.exhausted hnext, fun i b hb => nomatch hb⟩
  | value hnext hrow _ ih =>
    intro j hdue
    obtain ⟨hwritten, hdue⟩ := hdue.value hnext hrow
    exact (ih hdue).cons hwritten
  | further hmore hrow _ ih =>
    intro j hdue
    obtain ⟨hwritten, hdue⟩ := hdue.further hmore hrow
    exact (ih hdue).cons hwritten
  | spent hmore _ ih =>
    intro j hdue
    exact ih (hdue.spent hmore)

end Expansion

/-! ## 4. Evaluation -/

theorem collect_of_expansion {c : Cursor} {bs : List Binding} {final : Course}
    (e : Expansion .between (pure c) bs final) (limit : Option Nat) :
    (c.collect limit).val.1.rows = (cut limit bs).map Binding.row ∧
      (c.collect limit).val.2 = (halt limit (pure c) bs final).val := by
  have hrows := ask_rows limit e
  rw [(collect_spec limit c).1, Table.rows_pushAll]
  exact ⟨congrArg Prod.fst hrows, congrArg (fun r => r.2.val) hrows⟩

/-- A cursor over `n` values, each of which has `a` further bindings, gives
`n * (a + 1)` rows, or as many of the first of them as a limit allows.  Row
`j` has the tags of the cursor on the value at `j / (a + 1)`, and is numbered
`j % (a + 1)`.  Under a limit that is reached the cursor is left on the value
and at the number of its last row. -/
theorem collect_numbers_bindings (h own : Head) (vs : List Value) (a : UInt64)
    (limit : Option Nat) :
    let each := a.toNat + 1
    let r := ((alternates h ⟨own, vs, 0⟩ a 0).collect limit).val
    r.1.rows.length = limit.elim (vs.length * each) (min (vs.length * each)) ∧
    (∀ j row, r.1.rows[j]? = some row → ∃ v k, vs[j / each]? = some v ∧
      k.toNat = j % each ∧ NumberedRow h.tags v k row) ∧
    ∀ n, limit = some n → 1 ≤ n → n ≤ vs.length * each → ∃ v k,
      vs[(n - 1) / each]? = some v ∧ k.toNat = (n - 1) % each ∧
      r.2 = alternates (h.standOn v) ⟨own.standOn v, vs, (n - 1) / each + 1⟩ a k := by
  intro each r
  let start := alternates h ⟨own, vs, 0⟩ a 0
  obtain ⟨bs, final, e⟩ := (expansion_exists _ (pure start) (Nat.lt_succ_self _)).1
  have hstart : Due h own vs a .between (0 * each) (pure start) :=
    .between rfl rfl (Nat.zero_le _)
  rw [Nat.zero_mul] at hstart
  have hbs := numbered_of_expansion e hstart
  have hlength : bs.length = vs.length * each := (Nat.zero_add _).symm.trans hbs.length
  have hwritten : ∀ {j : Nat} {b : Binding}, bs[j]? = some b → WrittenAt h own vs a j b :=
    fun {j b} hb => Nat.zero_add j ▸ hbs.written j b hb
  obtain ⟨hrows, hleft⟩ := collect_of_expansion e limit
  refine ⟨?_, fun j row hrow => ?_, ?_⟩
  · rw [hrows, List.length_map, length_cut, hlength]
  · rw [hrows, List.getElem?_map, Option.map_eq_some_iff] at hrow
    obtain ⟨b, hb, rfl⟩ := hrow
    obtain ⟨v, k, hv, hk, hrow, -⟩ := (hwritten (getElem?_of_cut hb)).quotient
    exact ⟨v, k, hv, hk, hrow⟩
  · rintro n rfl hpos hle
    obtain ⟨m, rfl⟩ := Nat.exists_eq_add_one_of_ne_zero (Nat.ne_of_gt hpos)
    have hm : bs[m]? = some bs[m] := List.getElem?_eq_getElem (hlength ▸ hle)
    obtain ⟨v, k, hv, hk, -, hcourse⟩ := (hwritten hm).quotient
    rw [halt, hm] at hleft
    exact ⟨v, k, hv, hk, hleft.trans hcourse⟩

/-- The limit falls on the second of the three bindings of a value. -/
example :
    ((alternates { uid := 0 } ⟨{ uid := 1 }, [.id 10, .id 20], 0⟩ 2 0).collect (some 5)).val.2 =
      alternates { uid := 0, last := some (.id 20) }
        ⟨{ uid := 1, last := some (.id 20) }, [.id 10, .id 20], 2⟩ 2 1 := by
  rfl

end Cursor

end CursorTree
