/-
CursorTree.Json.Text — strings of JSON, written and read.

Writing escapes the quote, the backslash and the control characters below
U+0020, five of which have a letter of their own, and nothing else.

Reading also knows the escaped slash and the escape of any UTF-16 unit by
four digits of base sixteen.  A unit from the surrogate range is read only
as one of a pair of escapes.  A text that is skipped is held to the same
rules, except that surrogates need not pair up.
-/
import CursorTree.Json.Fault

namespace CursorTree.Json

/-! ## Writing -/

/-- A digit of base sixteen, letters in lower case. -/
def hexDigit (n : Nat) : Char := Nat.digitChar n

/-- How one character is written inside a string. -/
def escape (c : Char) : List Char :=
  if c = '"' then ['\\', '"']
  else if c = '\\' then ['\\', '\\']
  else if c = '\x08' then ['\\', 'b']
  else if c = '\x0c' then ['\\', 'f']
  else if c = '\n' then ['\\', 'n']
  else if c = '\r' then ['\\', 'r']
  else if c = '\t' then ['\\', 't']
  else if c.toNat < 32 then
    ['\\', 'u', '0', '0', hexDigit (c.toNat / 16), hexDigit (c.toNat % 16)]
  else [c]

/-- The characters of a string, written between quotes. -/
def writeText (cs : List Char) : List Char :=
  '"' :: cs.flatMap escape ++ ['"']

/-! ## Reading -/

/-- The value of a digit of base sixteen, in either case. -/
def hexValue? (c : Char) : Option Nat :=
  if '0' ≤ c ∧ c ≤ '9' then some (c.toNat - 48)
  else if 'a' ≤ c ∧ c ≤ 'f' then some (c.toNat - 87)
  else if 'A' ≤ c ∧ c ≤ 'F' then some (c.toNat - 55)
  else none

/-- The number that four digits of base sixteen denote. -/
def hexUnit? (a b c d : Char) : Option Nat := do
  return 4096 * (← hexValue? a) + 256 * (← hexValue? b) + 16 * (← hexValue? c) + (← hexValue? d)

/-- What a letter after a backslash stands for. -/
def unescape? (c : Char) : Option Char :=
  match c with
  | '"' => some '"'
  | '\\' => some '\\'
  | '/' => some '/'
  | 'b' => some '\x08'
  | 'f' => some '\x0c'
  | 'n' => some '\n'
  | 'r' => some '\r'
  | 't' => some '\t'
  | _ => none

/-- True for the first unit of a surrogate pair. -/
def isHighUnit (n : Nat) : Bool := 0xD800 ≤ n && n < 0xDC00

/-- True for the second unit of a surrogate pair. -/
def isLowUnit (n : Nat) : Bool := 0xDC00 ≤ n && n < 0xE000

/-- The character that a surrogate pair encodes. -/
def pairChar (high low : Nat) : Char :=
  Char.ofNat (0x10000 + 1024 * (high - 0xD800) + (low - 0xDC00))

/-- What is wrong where four digits of base sixteen are wanted and are not
there: the text ends within the next four bytes, or there is another
character. -/
def hexFault (cs : List Char) : Fault :=
  if (String.ofList (cs.take 4)).utf8ByteSize < 4 then .endInString else .badEscape

/-- What is wrong where the second escape of a pair is wanted and is not
there. -/
def pairFault : List Char → Fault
  | [] | ['\\'] => .endInString
  | '\\' :: 'u' :: cs => hexFault cs
  | _ => .cutSurrogate

/-- Puts a character in front of what is read behind it. -/
def prepend (c : Char) (rest : Except Fault (List Char × List Char)) :
    Except Fault (List Char × List Char) :=
  rest.map fun (cs, behind) => (c :: cs, behind)

/-- Reads a string behind its opening quote, up to its closing quote.  With
`pairs` off, surrogates need not pair up; what stands for them is then of
no account. -/
def readText (pairs : Bool) : Reader (List Char)
  | [] | ['\\'] => .error .endInString
  | '\\' :: 'u' :: a :: b :: c :: d :: rest =>
    match hexUnit? a b c d with
    | none => .error .badEscape
    | some n =>
      if pairs && isLowUnit n then
        .error .loneSurrogate
      else if pairs && isHighUnit n then
        match rest with
        | '\\' :: 'u' :: e :: f :: g :: h :: rest =>
          match hexUnit? e f g h with
          | none => .error .badEscape
          | some m =>
            if isLowUnit m then prepend (pairChar n m) (readText pairs rest)
            else .error .loneSurrogate
        | rest => .error (pairFault rest)
      else
        prepend (Char.ofNat n) (readText pairs rest)
  | '\\' :: 'u' :: short => .error (hexFault short)
  | '\\' :: c :: rest =>
    match unescape? c with
    | some x => prepend x (readText pairs rest)
    | none => .error .badEscape
  | c :: rest =>
    if c = '"' then .ok ([], rest)
    else if c.toNat < 32 then .error .controlCharacter
    else prepend c (readText pairs rest)

end CursorTree.Json
