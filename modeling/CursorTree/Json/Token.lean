/-
CursorTree.Json.Token — what a value begins with.

A value is a word, a number, a string, or opens a list or an object.  The
first three are read to their end; of a list or an object only the opening
bracket is read.
-/
import CursorTree.Json.Number
import CursorTree.Json.Text

namespace CursorTree.Json

/-- The two kinds of nesting. -/
inductive Frame where
  | list
  | object
  deriving DecidableEq, Inhabited

/-- The beginning of a value. -/
inductive Token where
  | null
  | bool (b : Bool)
  | number (n : NumberText)
  | text (s : List Char)
  | opening (f : Frame)
  deriving DecidableEq

/-- Goes on with a word after its first letter. -/
def readWord (t : Token) : List Char → Reader Token
  | [], cs => .ok (t, cs)
  | _ :: _, [] => .error .endInValue
  | w :: ws, c :: cs => if w = c then readWord t ws cs else .error .wrongWord

/-- Reads a number of a value.  Where the text ends and a digit is missing, a
number that is wanted could still go on; one that is passed over is bad. -/
def readNumberToken (wanted : Bool) (cs : List Char) : Except Fault (Token × List Char) :=
  match readNumberText cs with
  | .ok (n, rest) => .ok (.number n, rest)
  | .error e => .error (if wanted then e else .badNumber)

/-- Reads the beginning of a value, behind blanks.  The value is wanted or is
passed over; in one that is wanted, surrogates have to pair up. -/
def readToken (wanted : Bool) (cs : List Char) : Except Fault (Token × List Char) :=
  match skipBlanks cs with
  | [] => .error .endInValue
  | 'n' :: cs => readWord .null ['u', 'l', 'l'] cs
  | 't' :: cs => readWord (.bool true) ['r', 'u', 'e'] cs
  | 'f' :: cs => readWord (.bool false) ['a', 'l', 's', 'e'] cs
  | '"' :: cs => (readText wanted cs).map fun (s, rest) => (.text s, rest)
  | '[' :: cs => .ok (.opening .list, cs)
  | '{' :: cs => .ok (.opening .object, cs)
  | c :: cs =>
    if c = '-' ∨ c.isDigit then readNumberToken wanted (c :: cs) else .error .noValue

/-- What a value is, as far as its beginning tells. -/
inductive Item where
  | null
  | bool (b : Bool)
  | number (n : Number)
  | text (s : String)
  | opening (f : Frame)

/-- What a token stands for; a number has to be in range. -/
def Token.item : Token → Except Fault Item
  | null => .ok .null
  | bool b => .ok (.bool b)
  | number n => n.evaluate.map .number
  | text s => .ok (.text (String.ofList s))
  | opening f => .ok (.opening f)

/-- Reads what a value is, as far as its beginning tells. -/
def readItem (cs : List Char) : Except Fault (Item × List Char) := do
  let (t, cs) ← readToken true cs
  return (← t.item, cs)

end CursorTree.Json
