/-
CursorTree.Tags — the tag registry of a cursor, and rows of bindings.

A registry holds dynamic tags, which are bound to whatever value a cursor
stands on, and fixed tags, each bound to a value of its own.  Dynamic tags
keep the order of their registration and none is held twice; fixed tags
form a dictionary, where the last value given to a name counts.

A registry is written into a row dynamic tags first, so that a fixed tag
wins where a name is both (`write`).
-/
import CursorTree.Dict
import CursorTree.Value

namespace CursorTree

/-- Bindings of tags to values; a tag may be present without a value. -/
abbrev Row := Dict (Option Value)

/-- The tags registered at one cursor. -/
structure Tags where
  /-- Tags bound to the current value, in order of registration. -/
  dynamic : List String := []
  /-- Tags bound to values of their own. -/
  fixed : Dict Value := .empty
  /-- No dynamic tag is registered twice. -/
  nodup : dynamic.Nodup := by exact List.nodup_nil
  deriving DecidableEq

namespace Tags

/-- The registry without tags. -/
def empty : Tags := {}

instance : Inhabited Tags := ⟨empty⟩

/-- True when no tag of either kind is registered. -/
def isEmpty (t : Tags) : Bool := t.dynamic.isEmpty && t.fixed.isEmpty

/-- A list with a name at its end, unless the name is in it already. -/
def append (names : List String) (n : String) : List String :=
  if n ∈ names then names else names ++ [n]

theorem append_nodup {names : List String} (h : names.Nodup) (n : String) :
    (append names n).Nodup := by
  unfold append
  split
  · exact h
  next hn =>
    refine List.nodup_append.2 ⟨h, by simp, ?_⟩
    intro a ha b hb hab
    simp only [List.mem_singleton] at hb
    exact hn (hb ▸ hab ▸ ha)

/-- Registers a dynamic tag; one that is registered keeps its place. -/
def add (t : Tags) (n : String) : Tags :=
  { t with dynamic := append t.dynamic n, nodup := append_nodup t.nodup n }

/-- Registers a fixed tag, replacing the value it had. -/
def addFixed (t : Tags) (n : String) (v : Value) : Tags :=
  { t with fixed := t.fixed.insert n v }

/-- Adds every tag of another registry: its dynamic tags in their order
behind the ones held, its fixed values over the ones held. -/
def merge (t other : Tags) : Tags :=
  let grown := other.dynamic.foldl add t
  { grown with fixed := grown.fixed.merge other.fixed }

theorem fixed_foldl_add (names : List String) (t : Tags) :
    (names.foldl add t).fixed = t.fixed := by
  induction names generalizing t with
  | nil => rfl
  | cons n names ih => rw [List.foldl_cons, ih]; rfl

/-- The names registered one after the other join those that were there. -/
theorem mem_dynamic_foldl_add {names : List String} {t : Tags} {n : String} :
    n ∈ (names.foldl add t).dynamic ↔ n ∈ names ∨ n ∈ t.dynamic := by
  induction names generalizing t with
  | nil => simp
  | cons m names ih =>
    have hadd : n ∈ (t.add m).dynamic ↔ n = m ∨ n ∈ t.dynamic := by
      by_cases hm : m ∈ t.dynamic
      · simp only [add, append, if_pos hm]
        exact ⟨.inr, fun h => h.elim (fun h => h ▸ hm) id⟩
      · simp only [add, append, if_neg hm, List.mem_append, List.mem_singleton]
        exact or_comm
    rw [List.foldl_cons, ih, hadd, List.mem_cons, or_left_comm, or_assoc]

/-- Names registered one after the other stand in their order behind those
that were there, which keep their places. -/
theorem dynamic_foldl_add {names : List String} {t : Tags} (h : names.Nodup) :
    (names.foldl add t).dynamic = t.dynamic ++ names.filter (· ∉ t.dynamic) := by
  induction names generalizing t with
  | nil => exact (List.append_nil t.dynamic).symm
  | cons n names ih =>
    obtain ⟨hn, h⟩ := List.nodup_cons.1 h
    rw [List.foldl_cons, ih h]
    by_cases hheld : n ∈ t.dynamic
    · have hadd : (t.add n).dynamic = t.dynamic := if_pos hheld
      rw [hadd, List.filter_cons_of_neg (by simpa using hheld)]
    · have hadd : (t.add n).dynamic = t.dynamic ++ [n] := if_neg hheld
      have hothers : names.filter (· ∉ t.dynamic ++ [n]) = names.filter (· ∉ t.dynamic) := by
        refine List.filter_congr fun m hm => ?_
        have hne : m ≠ n := fun heq => hn (heq ▸ hm)
        simp [hne]
      rw [hadd, hothers, List.filter_cons_of_pos (by simpa using hheld), List.append_assoc,
        List.singleton_append]

/-- A registry without tags takes over another one exactly: no dynamic tag is
registered twice there, so each finds its place at the end. -/
@[simp] theorem empty_merge (t : Tags) : empty.merge t = t := by
  have hdynamic : (t.dynamic.foldl add empty).dynamic = t.dynamic :=
    (dynamic_foldl_add t.nodup).trans (by simp [empty])
  have hfixed : (t.dynamic.foldl add empty).fixed = .empty := fixed_foldl_add t.dynamic empty
  obtain ⟨dynamic, fixed, nodup⟩ := t
  simp only [merge, hdynamic, hfixed, Dict.empty_merge]

/-- Writes a registry into a row: each dynamic tag bound to the current
value, then each fixed tag bound to its own. -/
def write (t : Tags) (current : Option Value) (row : Row) : Row :=
  let bound := t.dynamic.foldl (fun r n => r.insert n current) row
  t.fixed.entries.foldl (fun r e => r.insert e.1 (some e.2)) bound

theorem get?_foldl_insert_same (names : List String) (x : Option Value) (row : Row) (n : String) :
    (names.foldl (fun r n => r.insert n x) row).get? n =
      if n ∈ names then some x else row.get? n := by
  induction names generalizing row with
  | nil => simp
  | cons m names ih =>
    rw [List.foldl_cons, ih, Dict.get?_insert]
    by_cases hn : n ∈ names <;> by_cases hm : n = m <;> simp [hn, hm]

/-- A registry binds its fixed tags to their values and its other tags to
the current value, and leaves every other tag of the row alone. -/
theorem get?_write (t : Tags) (current : Option Value) (row : Row) (n : String) :
    (t.write current row).get? n =
      ((t.fixed.get? n).map some).or (if n ∈ t.dynamic then some current else row.get? n) := by
  rw [write, Dict.get?_foldl_insert some t.fixed.increasing, get?_foldl_insert_same]
  rfl

end Tags

end CursorTree
