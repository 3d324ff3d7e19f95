/-
CursorTree.Value.Json — values and lists of values as JSON.

An id is written as a number and a name as a string, so the two are never
confused.  A value is read in full before it is told whether it is one, and
an element of a list is read before anything behind it is looked at.
-/
import CursorTree.Json.Refusal
import CursorTree.Value

namespace CursorTree.Value

open CursorTree.Json

/-! ## Writing -/

/-- A value as JSON: a number or a string. -/
def json : Value → List Char
  | id n => Nat.toDigits 10 n.toNat
  | name s => writeText s.toList

/-- The elements of a list behind the first one, each after a comma. -/
def jsonRest : List Value → List Char
  | [] => []
  | v :: vs => ',' :: v.json ++ jsonRest vs

/-- A list of values as JSON, without blanks. -/
def jsonList : List Value → List Char
  | [] => ['[', ']']
  | v :: vs => '[' :: v.json ++ jsonRest vs ++ [']']

/-! ## Reading -/

/-- The value that a JSON value stands for, if it stands for one. -/
def ofItem? : Item → Option Value
  | .number (.natural n) => some (id n)
  | .text s => some (name s)
  | _ => none

/-- Reads one value with room for so many nested levels. -/
def readWithin (room : Nat) (cs : List Char) : Except Refusal (Value × List Char) := do
  let (i, cs) ← require (readWhole? room cs)
  match ofItem? i with
  | some v => return (v, cs)
  | none => throw .noGraphValue

/-- Reads the elements of a list up to its closing bracket; behind the
first one each follows a comma.  There are at most so many. -/
def readElements : Nat → Bool → List Char → Except Refusal (List Value × List Char)
  | 0, _, _ => throw (.malformed .endInList)
  | most + 1, first, cs =>
    match skipBlanks cs with
    | [] => throw (.malformed .endInList)
    | c :: rest => do
      if c = ']' then
        return ([], rest)
      else
        let cs ← behindComma first (c :: rest)
        let (v, cs) ← readWithin (nestingLimit - 1) cs
        let (vs, cs) ← readElements most false cs
        return (v :: vs, cs)
where
  /-- The text of an element: the first stands at once, the others behind a
  comma, which the end of the list may not follow. -/
  behindComma (first : Bool) (cs : List Char) : Except Refusal (List Char) :=
    if first then return cs
    else
      match cs with
      | ',' :: cs =>
        match skipBlanks cs with
        | [] => throw (.malformed .endInValue)
        | c :: cs => if c = ']' then throw (.malformed .trailingComma) else return c :: cs
      | _ => throw (.malformed .noListEnd)

/-- Reads a whole text as one value. -/
def ofJson (cs : List Char) : Except Refusal Value := do
  let (v, cs) ← readWithin nestingLimit cs
  require (finish cs)
  return v

/-- Reads a whole text as a list of values. -/
def listOfJson (cs : List Char) : Except Refusal (List Value) := do
  let (i, cs) ← require (readItem cs)
  match i with
  | .opening .list =>
    let (vs, cs) ← readElements (cs.length + 1) true cs
    require (finish cs)
    return vs
  | i => throw (.wrongType i .list)

end CursorTree.Value
