/-
CursorTree.Table — rows of bindings, and the tags that occur in them.

The columns of a table are the tags of its rows, each once, in code point
order.  They can be found in two ways.  `push` grows a table by one row:
each tag of the row is searched for by bisection and, where it is missing,
inserted at the place where the search ended.  `ofRows` takes all tags of
all rows at once, sorts them and drops repetitions.
-/
import CursorTree.Tags

namespace CursorTree

/-- Rows, and the tags that occur in them. -/
structure Table where
  columns : List String := []
  rows : List Row := []
  deriving DecidableEq

namespace Table

/-- Where a search for a name ended: at the name, or at the place where it
would have to be inserted. -/
inductive Place where
  | found (index : Nat)
  | vacant (index : Nat)
  deriving DecidableEq

/-- Bisection in a window of a sorted list of names. -/
def searchWithin (names : List String) (key : String) (lo hi : Nat) (bound : hi ≤ names.length) :
    Place :=
  if h : lo < hi then
    let mid := lo + (hi - lo) / 2
    have below : mid < hi := by simp only [mid]; omega
    if names[mid] = key then .found mid
    else if names[mid] < key then searchWithin names key (mid + 1) hi bound
    else searchWithin names key lo mid (by omega)
  else
    .vacant lo
termination_by hi - lo

/-- Bisection in a sorted list of names. -/
def search (names : List String) (key : String) : Place :=
  searchWithin names key 0 names.length (Nat.le_refl _)

/-- The columns with one more tag, at its place unless it is there. -/
def noteTag (columns : List String) (tag : String) : List String :=
  match search columns tag with
  | .found _ => columns
  | .vacant i => columns.insertIdx i tag

/-- The columns with more tags, noted in the order given. -/
def noteTags (columns tags : List String) : List String :=
  tags.foldl noteTag columns

/-- The table with one more row. -/
def push (t : Table) (row : Row) : Table :=
  ⟨noteTags t.columns row.keys, t.rows ++ [row]⟩

/-- The table with more rows, pushed one after the other. -/
def pushAll (t : Table) (rows : List Row) : Table :=
  rows.foldl push t

/-- The rows pushed stand behind those there are. -/
@[simp] theorem rows_pushAll (t : Table) (rows : List Row) :
    (t.pushAll rows).rows = t.rows ++ rows := by
  induction rows generalizing t with
  | nil => exact (List.append_nil t.rows).symm
  | cons r rows ih => rw [pushAll, List.foldl_cons, ← pushAll, ih, push, List.append_assoc]; rfl

/-- A list without the elements that equal the one before them. -/
def dropRepeats : List String → List String
  | a :: b :: rest => if a = b then dropRepeats (b :: rest) else a :: dropRepeats (b :: rest)
  | rest => rest

/-- Names in code point order, each once. -/
def sortedNames (names : List String) : List String :=
  dropRepeats (names.mergeSort (fun a b => decide (a ≤ b)))

/-- The table of some rows, with the columns found from all of them at once. -/
def ofRows (rows : List Row) : Table :=
  ⟨sortedNames (rows.flatMap Dict.keys), rows⟩

/-- How many rows there are. -/
def size (t : Table) : Nat := t.rows.length

/-- True when there is no row. -/
def isEmpty (t : Table) : Bool := t.rows.isEmpty

/-- The row at an index. -/
def row? (t : Table) (i : Nat) : Option Row := t.rows[i]?

/-- The value bound to a tag in the row at an index. -/
def value? (t : Table) (i : Nat) (tag : String) : Option Value :=
  ((t.row? i).bind (·.get? tag)).join

end Table

end CursorTree
