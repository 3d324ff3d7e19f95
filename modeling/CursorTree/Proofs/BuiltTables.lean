/-
CursorTree.Proofs.BuiltTables — tables built row by row, and all at once.

The columns of a table are found by two unlike ways: tag by tag, by
bisection and insertion, or by sorting all tags together and dropping those
that are there already.  Either way they are strictly increasing and are
the tags of the rows (`ColumnsOf`), and only one list of names is both
(`ColumnsOf.eq`).  So it does not matter which rows a table was made of at
once and which were pushed behind them.

Nor does it matter in which order the tags of a row are met.  `Visit` is a row
together with such an order, and `Built` admits every visit.  The tables of
`push` and of `ofRows`, which meet tags in their own order, are among those
(`Built.push`, `built_ofRows`).
-/
import CursorTree.Proofs.Columns

namespace CursorTree.Table

/-! ## 1. All tags together -/

theorem mem_dropRepeats {names : List String} {n : String} :
    n ∈ dropRepeats names ↔ n ∈ names := by
  fun_induction dropRepeats names with
  | case1 b rest ih => rw [ih, List.mem_cons, List.mem_cons, List.mem_cons, or_self_left]
  | case2 a b rest hne ih => rw [List.mem_cons, ih, ← List.mem_cons]
  | case3 names hshort => exact Iff.rfl

/-- Without its repetitions an ordered list is strictly increasing. -/
theorem pairwise_dropRepeats {names : List String} (h : names.Pairwise (· ≤ ·)) :
    (dropRepeats names).Pairwise (· < ·) := by
  fun_induction dropRepeats names with
  | case1 b rest ih => exact ih h.of_cons
  | case2 a b rest hne ih =>
    obtain ⟨hfirst, hrest⟩ := List.pairwise_cons.1 h
    have hlt : a < b := lt_of_le_of_ne (hfirst b List.mem_cons_self) hne
    refine List.pairwise_cons.2 ⟨fun n hn => ?_, ih hrest⟩
    rcases List.mem_cons.1 (mem_dropRepeats.1 hn) with rfl | hn
    · exact hlt
    · exact lt_of_lt_of_le hlt ((List.pairwise_cons.1 hrest).1 n hn)
  | case3 names hshort =>
    match names, hshort with
    | [], _ => exact .nil
    | [a], _ => exact List.pairwise_singleton _ a
    | a :: b :: rest, hshort => exact (hshort a b rest rfl).elim

theorem sortedNames_spec (names : List String) :
    (sortedNames names).Pairwise (· < ·) ∧ ∀ n, n ∈ sortedNames names ↔ n ∈ names :=
  ⟨pairwise_dropRepeats (List.pairwise_mergeSort' (· ≤ ·) names),
    fun _ => mem_dropRepeats.trans List.mem_mergeSort⟩

/-! ## 2. Visits -/

/-- A row, and an order in which its tags are met. -/
structure Visit where
  row : Row
  tags : List String
  perm : tags.Perm row.keys

/-- A row whose tags are met in code point order. -/
def Visit.inOrder (row : Row) : Visit := ⟨row, row.keys, .refl _⟩

/-- The table with one more row. -/
def pushVisit (t : Table) (v : Visit) : Table := ⟨noteTags t.columns v.tags, t.rows ++ [v.row]⟩

/-- The table of some rows at once. -/
def ofVisits (vs : List Visit) : Table := ⟨sortedNames (vs.flatMap Visit.tags), vs.map Visit.row⟩

/-- The tables that can be built from rows: from none or from some at once,
and then row by row. -/
inductive Built : List Row → Table → Prop
  | fresh : Built [] {}
  | atOnce (vs : List Visit) : Built (vs.map Visit.row) (ofVisits vs)
  | oneMore {rows : List Row} {t : Table} (h : Built rows t) (v : Visit) :
      Built (rows ++ [v.row]) (t.pushVisit v)

theorem built_ofRows (rows : List Row) : Built rows (ofRows rows) := by
  have h := Built.atOnce (rows.map Visit.inOrder)
  rw [ofVisits, List.map_map, List.flatMap_map] at h
  rwa [show Visit.row ∘ Visit.inOrder = id from rfl, List.map_id] at h

theorem Built.push {rows : List Row} {t : Table} (h : Built rows t) (row : Row) :
    Built (rows ++ [row]) (t.push row) :=
  h.oneMore (.inOrder row)

theorem Built.pushAll {rows : List Row} {t : Table} (h : Built rows t) (later : List Row) :
    Built (rows ++ later) (t.pushAll later) := by
  induction later generalizing rows t with
  | nil => rwa [List.append_nil]
  | cons row later ih =>
    have hall := ih (h.push row)
    rwa [List.append_assoc, List.singleton_append] at hall

/-! ## 3. Their columns -/

theorem columnsOf_ofVisits (vs : List Visit) :
    ColumnsOf (ofVisits vs).columns (ofVisits vs).rows := by
  obtain ⟨hsorted, hmem⟩ := sortedNames_spec (vs.flatMap Visit.tags)
  refine ⟨hsorted, fun n => (hmem n).trans ?_⟩
  simp only [ofVisits, List.mem_flatMap, List.mem_map, exists_exists_and_eq_and]
  exact exists_congr fun v => and_congr_right fun _ => v.perm.mem_iff

theorem Built.rows_eq {rows : List Row} {t : Table} (h : Built rows t) : t.rows = rows := by
  induction h with
  | fresh | atOnce vs => rfl
  | oneMore _ v ih => rw [pushVisit, ih]

theorem Built.columnsOf {rows : List Row} {t : Table} (h : Built rows t) :
    ColumnsOf t.columns t.rows := by
  induction h with
  | fresh => exact columnsOf_empty
  | atOnce vs => exact columnsOf_ofVisits vs
  | oneMore _ v ih => exact columnsOf_noteTags ih v.row v.perm

/-- Rows have one list of columns. -/
theorem ColumnsOf.eq {columns columns' : List String} {rows : List Row}
    (h : ColumnsOf columns rows) (h' : ColumnsOf columns' rows) : columns = columns' :=
  h.sorted.eq_of_mem_iff h'.sorted fun n => (h.mem_iff n).trans (h'.mem_iff n).symm

theorem Built.eq {rows : List Row} {t u : Table} (ht : Built rows t) (hu : Built rows u) :
    t = u := by
  have hcolumns := ht.columnsOf
  have hcolumns' := hu.columnsOf
  rw [ht.rows_eq] at hcolumns
  rw [hu.rows_eq] at hcolumns'
  rw [Table.mk.injEq]
  exact ⟨hcolumns.eq hcolumns', ht.rows_eq.trans hu.rows_eq.symm⟩

/-- However a table was built from rows, it has these rows in their order, its
columns are strictly increasing and are the tags of the rows, and it is the
table of all of them at once.  This stays so when rows are pushed. -/
theorem built_eq_ofRows {rows : List Row} {t : Table} (h : Built rows t) :
    t.columns.Pairwise (· < ·) ∧ (∀ n, n ∈ t.columns ↔ ∃ r ∈ rows, n ∈ r.keys) ∧
      t.rows = rows ∧ t = ofRows rows ∧ ∀ later, t.pushAll later = ofRows (rows ++ later) := by
  have hcolumns := h.columnsOf
  rw [h.rows_eq] at hcolumns
  exact ⟨hcolumns.sorted, hcolumns.mem_iff, h.rows_eq, h.eq (built_ofRows rows),
    fun later => (h.pushAll later).eq (built_ofRows _)⟩

/-- Tags that are met backwards, and a tag that belongs between others. -/
def crossedVisits : List Visit :=
  [⟨Dict.ofList [("b", some (.id 1)), ("é", none)], ["é", "b"], by decide⟩,
    ⟨Dict.ofList [("a", none), ("b", none), ("d", some (.name "x"))], ["b", "d", "a"], by decide⟩]

/-- Two rows at once, and one of them again behind them. -/
def crossedTable : Table := (ofVisits crossedVisits).pushVisit crossedVisits[1]

theorem crossedTable_columns :
    Built (crossedVisits.map Visit.row ++ [crossedVisits[1].row]) crossedTable ∧
      crossedTable = ofRows (crossedVisits.map Visit.row ++ [crossedVisits[1].row]) ∧
      "d" ∈ crossedTable.columns := by
  have h : Built (crossedVisits.map Visit.row ++ [crossedVisits[1].row]) crossedTable :=
    (Built.atOnce crossedVisits).oneMore _
  obtain ⟨-, hmem, -, heq, -⟩ := built_eq_ofRows h
  exact ⟨h, heq, (hmem "d").2 ⟨_, List.mem_concat_self, by decide⟩⟩

/-- Each of several insertions leaves the names in order for the next one. -/
example : noteTags ["b", "é"] ["é", "d", "a", "b", "c"] = ["a", "b", "c", "d", "é"] := by cbv

end CursorTree.Table
