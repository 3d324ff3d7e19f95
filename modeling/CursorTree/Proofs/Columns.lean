/-
CursorTree.Proofs.Columns — the columns of a table grown row by row.

Pushing a row looks up each of its tags by bisection and inserts the tag
where the search ended.  `Place.Fits` says what such a place has to be in
sorted names: the name is there, or everything in front of the place is
smaller and everything behind it greater.  Bisection answers one that fits
(`search_fits`) because its window always leaves smaller names in front and
greater ones behind, so inserting there keeps the columns sorted, and this
is what the search for the next tag needs.

`columns_pushAll` is the result: the columns are strictly increasing and
are the tags of the rows.  Rows that all have the same tags therefore have
them as columns, in the order of `Dict.keys` (`columns_eq_keys`).
-/
import CursorTree.Table
import Mathlib.Data.List.Sort
import Mathlib.Data.String.Basic

namespace CursorTree.Table

/-- A place is right for a name in sorted names. -/
def Place.Fits (names : List String) (key : String) : Place → Prop
  | .found i => names[i]? = some key
  | .vacant i => i ≤ names.length ∧ (∀ a ∈ names.take i, a < key) ∧ ∀ a ∈ names.drop i, key < a

/-! ## 1. Bisection -/

section Sorted

variable {names : List String} (sorted : names.Pairwise (· < ·))
include sorted

/-- The window shrinks from the left: what was in front of a smaller name is
smaller too. -/
theorem take_below {key : String} {mid : Nat} (hmid : mid < names.length)
    (hlt : names[mid] < key) : ∀ a ∈ names.take (mid + 1), a < key := by
  intro a ha
  obtain ⟨j, hj, rfl⟩ := List.mem_take_iff_getElem.1 ha
  have hjmid : j ≤ mid := by omega
  rcases Nat.lt_or_eq_of_le hjmid with hjmid | rfl
  · exact String.lt_trans (List.pairwise_iff_getElem.1 sorted j mid (by omega) hmid hjmid) hlt
  · exact hlt

/-- The window shrinks from the right. -/
theorem drop_above {key : String} {mid : Nat} (hmid : mid < names.length)
    (hlt : key < names[mid]) : ∀ a ∈ names.drop mid, key < a := by
  intro a ha
  obtain ⟨j, hj, rfl⟩ := List.mem_drop_iff_getElem.1 ha
  rcases Nat.eq_zero_or_pos j with rfl | hpos
  · exact hlt
  · exact String.lt_trans hlt
      (List.pairwise_iff_getElem.1 sorted mid (mid + j) hmid (by omega) (by omega))

theorem searchWithin_fits {key : String} {lo hi : Nat} (bound : hi ≤ names.length)
    (hlohi : lo ≤ hi) (below : ∀ a ∈ names.take lo, a < key)
    (above : ∀ a ∈ names.drop hi, key < a) :
    (searchWithin names key lo hi bound).Fits names key := by
  fun_induction searchWithin names key lo hi bound with
  | case1 lo hi bound h mid hmid hkey =>
    rw [Place.Fits, ← hkey]
    exact List.getElem?_eq_getElem _
  | case2 lo hi bound h mid hmid hne hlt ih =>
    exact ih (by omega) (take_below sorted (by omega) hlt) above
  | case3 lo hi bound h mid hmid hne hnlt ih =>
    have hgt : key < names[mid] := Dict.lt_of_not_lt_of_ne hnlt hne
    exact ih (by omega) below (drop_above sorted (by omega) hgt)
  | case4 lo hi bound h =>
    have hlo : lo = hi := by omega
    subst hlo
    exact ⟨bound, below, above⟩

theorem search_fits (key : String) : (search names key).Fits names key :=
  searchWithin_fits sorted _ (Nat.zero_le _) (by simp) (by simp)

end Sorted

/-! ## 2. Columns stay sorted -/

/-- Columns that are sorted and are the tags of some rows. -/
structure ColumnsOf (columns : List String) (rows : List Row) : Prop where
  sorted : columns.Pairwise (· < ·)
  mem_iff : ∀ n, n ∈ columns ↔ ∃ r ∈ rows, n ∈ r.keys

theorem insertIdx_eq_append (a : String) :
    ∀ (names : List String) (i : Nat), i ≤ names.length →
      names.insertIdx i a = names.take i ++ a :: names.drop i
  | names, 0, _ => rfl
  | b :: names, i + 1, h => by
      have ih := insertIdx_eq_append a names i (Nat.le_of_succ_le_succ h)
      rw [List.insertIdx_succ_cons, ih, List.take_succ_cons, List.drop_succ_cons, List.cons_append]

theorem noteTag_spec {columns : List String} (sorted : columns.Pairwise (· < ·)) (tag : String) :
    (noteTag columns tag).Pairwise (· < ·) ∧ ∀ n, n ∈ noteTag columns tag ↔ n = tag ∨ n ∈ columns := by
  have hfits := search_fits sorted tag
  unfold noteTag
  cases hplace : search columns tag with
  | found i =>
    rw [hplace] at hfits
    have hmem : tag ∈ columns := List.mem_of_getElem? hfits
    refine ⟨sorted, fun n => ⟨.inr, ?_⟩⟩
    rintro (rfl | hn)
    · exact hmem
    · exact hn
  | vacant i =>
    rw [hplace] at hfits
    obtain ⟨hle, below, above⟩ := hfits
    refine ⟨?_, fun n => List.mem_insertIdx hle⟩
    have hsplit := List.take_append_drop i columns
    rw [← hsplit, List.pairwise_append] at sorted
    obtain ⟨hfront, hback, hacross⟩ := sorted
    dsimp only
    rw [insertIdx_eq_append tag columns i hle, List.pairwise_append]
    refine ⟨hfront, List.pairwise_cons.2 ⟨above, hback⟩, fun a ha b hb => ?_⟩
    rcases List.mem_cons.1 hb with rfl | hb
    · exact below a ha
    · exact hacross a ha b hb

theorem noteTags_spec {columns : List String} (sorted : columns.Pairwise (· < ·))
    (tags : List String) :
    (noteTags columns tags).Pairwise (· < ·) ∧
      ∀ n, n ∈ noteTags columns tags ↔ n ∈ tags ∨ n ∈ columns := by
  induction tags generalizing columns with
  | nil => exact ⟨sorted, fun n => by simp [noteTags]⟩
  | cons tag tags ih =>
    obtain ⟨hsorted, hmem⟩ := noteTag_spec sorted tag
    obtain ⟨hsorted', hmem'⟩ := ih hsorted
    refine ⟨hsorted', fun n => (hmem' n).trans ?_⟩
    rw [hmem n, List.mem_cons, or_left_comm, or_assoc]

/-- The tags of one more row may be noted in any order. -/
theorem columnsOf_noteTags {t : Table} (h : ColumnsOf t.columns t.rows) (row : Row)
    {tags : List String} (htags : tags.Perm row.keys) :
    ColumnsOf (noteTags t.columns tags) (t.rows ++ [row]) := by
  obtain ⟨hsorted, hmem⟩ := noteTags_spec h.sorted tags
  refine ⟨hsorted, fun n => (hmem n).trans ?_⟩
  rw [h.mem_iff n, htags.mem_iff]
  simp only [List.mem_append, List.mem_singleton]
  constructor
  · rintro (hn | ⟨r, hr, hn⟩)
    · exact ⟨row, .inr rfl, hn⟩
    · exact ⟨r, .inl hr, hn⟩
  · rintro ⟨r, hr | rfl, hn⟩
    · exact .inr ⟨r, hr, hn⟩
    · exact .inl hn

theorem columnsOf_push {t : Table} (h : ColumnsOf t.columns t.rows) (row : Row) :
    ColumnsOf (t.push row).columns (t.push row).rows :=
  columnsOf_noteTags h row (.refl _)

/-- However many rows are pushed, the columns are sorted and are their tags. -/
theorem columns_pushAll {t : Table} (h : ColumnsOf t.columns t.rows) (rows : List Row) :
    ColumnsOf (t.pushAll rows).columns (t.pushAll rows).rows := by
  induction rows generalizing t with
  | nil => exact h
  | cons r rows ih => exact ih (columnsOf_push h r)

theorem columnsOf_empty : ColumnsOf [] [] :=
  ⟨.nil, fun n => by simp⟩

/-- Rows with one set of tags among them have these as columns. -/
theorem columns_eq_keys {columns : List String} {rows : List Row} (h : ColumnsOf columns rows)
    (tags : String → Prop) (hrows : ∀ r ∈ rows, ∀ n, n ∈ r.keys ↔ tags n) :
    ∀ r ∈ rows, columns = r.keys := by
  intro r hr
  refine h.sorted.eq_of_mem_iff r.keys_pairwise fun n => (h.mem_iff n).trans ?_
  rw [hrows r hr n]
  constructor
  · rintro ⟨r', hr', hn⟩
    exact (hrows r' hr' n).1 hn
  · intro hn
    exact ⟨r, hr, (hrows r hr n).2 hn⟩

end CursorTree.Table
