/-
CursorTree.Text.Quoted — texts in quotes, so that every character shows.

A quoted text stands between double quotes.  A quote or a backslash in it
follows a backslash, the commonest controls have a letter, and any other
character that is not printed by itself is written by its number.
-/
import CursorTree.Text.Unprinted

namespace CursorTree.Text

/-- The digits of a number in base sixteen, letters in lower case. -/
def hexDigits (n : Nat) : List Char := Nat.toDigits 16 n

/-- How one character is written between quotes. -/
def quotedChar (c : Char) : List Char :=
  if c = '"' then ['\\', '"']
  else if c = '\\' then ['\\', '\\']
  else if c = '\n' then ['\\', 'n']
  else if c = '\r' then ['\\', 'r']
  else if c = '\t' then ['\\', 't']
  else if c = '\x00' then ['\\', '0']
  else if isUnprinted c then ['\\', 'u', '\x7b'] ++ hexDigits c.toNat ++ ['\x7d']
  else [c]

/-- A text in quotes. -/
def quoted (s : String) : String :=
  String.ofList ('"' :: s.toList.flatMap quotedChar ++ ['"'])

/-- Some texts in quotes, as a bracketed list. -/
def quotedList (ss : List String) : String :=
  "[" ++ ", ".intercalate (ss.map quoted) ++ "]"

end CursorTree.Text
