/-
CursorTree.Value.Token — reading a value from a word of a command line.

A word is an id when it is a decimal numeral below 2^64: one leading plus
sign or none, then one or more ASCII digits, with leading zeros allowed.
Every other word is a name, kept as it stands.  The numeral is read in
unbounded arithmetic first and compared with the limit afterwards, so a
long run of leading zeros does not matter.
-/
import CursorTree.Value

namespace CursorTree.Value

/-- The digits of a numeral, after one optional plus sign. -/
def dropPlus : List Char → List Char
  | '+' :: ds => ds
  | ds => ds

/-- The number that one or more ASCII digits denote. -/
def numeral? (ds : List Char) : Option Nat :=
  if ds ≠ [] ∧ ds.all Char.isDigit then some (Nat.ofDigitChars 10 ds 0) else none

/-- The 64-bit number that a word denotes, with an optional plus sign. -/
def word? (cs : List Char) : Option UInt64 :=
  (numeral? (dropPlus cs)).bind fun n =>
    if n < UInt64.size then some (UInt64.ofNat n) else none

/-- The value a command line word stands for. -/
def ofToken (token : String) : Value :=
  match word? token.toList with
  | some n => id n
  | none => name token

end CursorTree.Value
