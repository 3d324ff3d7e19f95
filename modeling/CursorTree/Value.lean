/-
CursorTree.Value — the opaque tokens that cursors enumerate.

A value is a numeric id or a name.  Cursors never look inside one: they
compare values for equality and hand them on.  Values are ordered with
every id before every name, ids by number and names by code point.
-/

namespace CursorTree

/-- A node or edge of the graph, by number or by name. -/
inductive Value where
  /-- A 64-bit numeric identifier. -/
  | id (number : UInt64)
  /-- A textual identifier. -/
  | name (text : String)
  deriving DecidableEq, Inhabited

namespace Value

/-- Ids come before names; ids go by number, names by code point. -/
def compare : Value → Value → Ordering
  | id a, id b => Ord.compare a b
  | id _, name _ => .lt
  | name _, id _ => .gt
  | name a, name b => Ord.compare a b

instance : Ord Value := ⟨compare⟩

/-- A list of values in ascending order. -/
def sort (vs : List Value) : List Value :=
  vs.mergeSort (fun a b => compare a b != .gt)

/-- The values of a list without repetitions. -/
def distinct (vs : List Value) : List Value :=
  vs.eraseDups

/-- The ids from one number up to, but not including, another. -/
def range (lo hi : UInt64) : List Value :=
  (List.range (hi.toNat - lo.toNat)).map fun i => id (UInt64.ofNat (lo.toNat + i))

/-- The printed characters: the decimal numeral of an id, the text of a name. -/
def chars : Value → List Char
  | id n => Nat.toDigits 10 n.toNat
  | name s => s.toList

/-- The printed form. -/
def display (v : Value) : String :=
  String.ofList v.chars

theorem isDigit_of_mem_chars {n : UInt64} {c : Char} (h : c ∈ (id n).chars) : c.isDigit = true :=
  Nat.isDigit_of_mem_toDigits (by decide) (by decide) h

/-- Different ids have different numerals. -/
theorem chars_id_injective {m n : UInt64} (h : (id m).chars = (id n).chars) : m = n := by
  have hnumber : ∀ k : UInt64, Nat.ofDigitChars 10 (id k).chars 0 = k.toNat := fun _ =>
    Nat.ofDigitChars_ten_toDigits
  exact UInt64.toNat_inj.1 (by rw [← hnumber m, h, hnumber n])

end Value

end CursorTree
