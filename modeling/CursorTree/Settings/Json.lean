/-
CursorTree.Settings.Json — settings from a JSON text.

Settings are an object, whose members may stand in any order, or a list of
up to four values in the order of the fields.  Fields that are missing have
their defaults.  A field may be given once; members of other names are
passed over, whatever they hold, as long as it is JSON.

The fields that a text gives are gathered first (`Given`) and made into
settings at the end.  Settings that are read are then validated.
-/
import CursorTree.Json.Refusal
import CursorTree.Settings

namespace CursorTree.Settings

open CursorTree.Json

/-- The fields of settings, in their order. -/
inductive Field where
  | optimize
  | maxPasses
  | logFilter
  | resultLimit
  deriving DecidableEq

/-- The name of a field in a text. -/
def Field.key : Field → String
  | optimize => "optimize"
  | maxPasses => "max_optimize_passes"
  | logFilter => "log_filter"
  | resultLimit => "result_limit"

/-- All fields, in their order. -/
def Field.all : List Field := [.optimize, .maxPasses, .logFilter, .resultLimit]

/-- The field of a name. -/
def Field.ofKey? (k : String) : Option Field := Field.all.find? (·.key = k)

/-- The fields that a text has given so far. -/
structure Given where
  optimize : Option Bool := none
  maxPasses : Option Nat := none
  logFilter : Option String := none
  resultLimit : Option (Option Nat) := none
  deriving DecidableEq

namespace Given

/-- True when a field has been given. -/
def has (g : Given) : Field → Bool
  | .optimize => g.optimize.isSome
  | .maxPasses => g.maxPasses.isSome
  | .logFilter => g.logFilter.isSome
  | .resultLimit => g.resultLimit.isSome

/-- The settings with the given fields, and defaults for the others. -/
def settings (g : Given) : Settings :=
  let d : Settings := {}
  { optimize := g.optimize.getD d.optimize
    maxPasses := g.maxPasses.getD d.maxPasses
    logFilter := g.logFilter.getD d.logFilter
    resultLimit := g.resultLimit.getD d.resultLimit }

end Given

/-- A value that is wanted as a count. -/
def count : Item → Except Refusal Nat
  | .number (.natural n) => .ok n.toNat
  | .number (.negative n) => .error (.wrongValue (.number (.negative n)) .count)
  | i => .error (.wrongType i .count)

/-- A field given a value. -/
def Given.take (g : Given) (f : Field) (i : Item) : Except Refusal Given :=
  match f, i with
  | .optimize, .bool b => .ok { g with optimize := some b }
  | .optimize, i => .error (.wrongType i .boolean)
  | .maxPasses, i => (count i).map fun n => { g with maxPasses := some n }
  | .logFilter, .text s => .ok { g with logFilter := some s }
  | .logFilter, i => .error (.wrongType i .text)
  | .resultLimit, .null => .ok { g with resultLimit := some none }
  | .resultLimit, i => (count i).map fun n => { g with resultLimit := some (some n) }

/-- Reads the value of a field. -/
def readField (g : Given) (f : Field) (cs : List Char) : Except Refusal (Given × List Char) := do
  let (i, cs) ← require (readItem cs)
  return (← g.take f i, cs)

/-! ## Objects -/

/-- Reads the colon between the name and the value of a member. -/
def readColon (cs : List Char) : Except Fault (List Char) :=
  match skipBlanks cs with
  | [] => .error .endInObject
  | c :: cs => if c = ':' then .ok cs else .error .noColon

/-- Reads a member behind the opening quote of its name. -/
def readMember (g : Given) (cs : List Char) : Except Refusal (Given × List Char) := do
  let (k, cs) ← require (readText true cs)
  match Field.ofKey? (String.ofList k) with
  | some f =>
    if g.has f then
      throw (.repeated f.key)
    else
      let cs ← require (readColon cs)
      readField g f cs
  | none =>
    let cs ← require (readColon cs)
    let cs ← require (skipValue cs)
    return (g, cs)

/-- What is ahead between the parts of an object or a list. -/
inductive Ahead where
  /-- The end, and the text behind it. -/
  | ended (rest : List Char)
  /-- One more part, and the text of it. -/
  | part (cs : List Char)
  deriving DecidableEq

/-- Goes on to the next member, behind its opening quote; behind the first
one each member follows a comma. -/
def toMember (first : Bool) (cs : List Char) : Except Fault Ahead :=
  match skipBlanks cs with
  | [] => .error .endInObject
  | '}' :: cs => .ok (.ended cs)
  | c :: cs =>
    if first then
      if c = '"' then .ok (.part cs) else .error .badKey
    else if c = ',' then
      match skipBlanks cs with
      | [] => .error .endInValue
      | '"' :: cs => .ok (.part cs)
      | '}' :: _ => .error .trailingComma
      | _ => .error .badKey
    else
      .error .noObjectEnd

/-- Reads the members of an object up to its closing brace, of which there
are at most so many. -/
def readMembers : Nat → Bool → Given → List Char → Except Refusal (Given × List Char)
  | 0, _, _, _ => throw (.malformed .endInObject)
  | most + 1, first, g, cs => do
    match ← require (toMember first cs) with
    | .ended rest => return (g, rest)
    | .part cs =>
      let (g, cs) ← readMember g cs
      readMembers most false g cs

/-! ## Lists -/

/-- The end of a list behind its last field. -/
def endFields (cs : List Char) : Except Fault (List Char) :=
  match skipBlanks cs with
  | [] => .error .endInList
  | ']' :: cs => .ok cs
  | ',' :: cs =>
    match skipBlanks cs with
    | ']' :: _ => .error .trailingComma
    | _ => .error .trailingText
  | _ => .error .trailingText

/-- Goes on to the next element; behind the first one each element follows
a comma. -/
def toElement (first : Bool) (cs : List Char) : Except Fault Ahead :=
  match skipBlanks cs with
  | [] => .error .endInList
  | ']' :: cs => .ok (.ended cs)
  | c :: cs =>
    if first then .ok (.part (c :: cs))
    else if c = ',' then
      match skipBlanks cs with
      | [] => .error .endInValue
      | ']' :: _ => .error .trailingComma
      | cs => .ok (.part cs)
    else
      .error .noListEnd

/-- Reads elements of a list as the fields in their order. -/
def readFields : List Field → Bool → Given → List Char → Except Refusal (Given × List Char)
  | [], _, g, cs => do return (g, ← require (endFields cs))
  | f :: fs, first, g, cs => do
    match ← require (toElement first cs) with
    | .ended rest => return (g, rest)
    | .part cs =>
      let (g, cs) ← readField g f cs
      readFields fs false g cs

/-! ## Settings -/

/-- Reads the settings at the beginning of a text. -/
def readGiven (cs : List Char) : Except Refusal (Given × List Char) := do
  let (i, cs) ← require (readItem cs)
  match i with
  | .opening .object => readMembers (cs.length + 1) true {} cs
  | .opening .list => readFields Field.all true {} cs
  | i => throw (.wrongType i .settings)

/-- Reads a whole text as settings, without validating them. -/
def parse (cs : List Char) : Except Refusal Settings := do
  let (g, cs) ← readGiven cs
  require (finish cs)
  return g.settings

end CursorTree.Settings
