/-
CursorTree.Json.Nesting — reading to the end of nested lists and objects.

What is inside a list or an object is read by a machine whose memory is
the stack of lists and objects it is in.  It has two manners.  `measured`
is that of a value that is wanted: surrogates pair up, numbers are in
range, and nesting is no deeper than there is room for.  `skimmed` is that
of a value that is passed over: only its form counts, and it may be nested
without limit.

Every step of the machine either reads a character or turns to a value, so
twice the length of the text bounds the number of steps.
-/
import CursorTree.Json.Token

namespace CursorTree.Json

/-- How nested values are read. -/
inductive Manner where
  /-- As a value that is wanted, with room for so many nested levels. -/
  | measured (room : Nat)
  /-- As a value that is passed over. -/
  | skimmed
  deriving DecidableEq

/-- What the machine is about to read. -/
inductive Phase where
  /-- What follows an opening bracket. -/
  | opened
  /-- What follows a comma. -/
  | continued
  /-- A value. -/
  | value
  /-- What follows a value. -/
  | finished
  deriving DecidableEq

/-- A state of the machine: the innermost level, the levels around it, what
it is about to read, and the text. -/
structure State where
  frame : Frame
  around : List Frame
  phase : Phase
  text : List Char

/-- The machine has left all levels, or goes on. -/
inductive Progress where
  | done (rest : List Char)
  | more (s : State)

namespace State

/-- Leaves the innermost level. -/
def leave (s : State) (rest : List Char) : Progress :=
  match s.around with
  | [] => .done rest
  | f :: fs => .more ⟨f, fs, .finished, rest⟩

/-- Reads the name of a member behind its opening quote, and its colon. -/
def readKey (m : Manner) (s : State) (cs : List Char) : Except Fault Progress := do
  let (_, cs) ← readText (m != .skimmed) cs
  match skipBlanks cs with
  | [] => .error .endInObject
  | c :: cs => if c = ':' then .ok (.more { s with phase := .value, text := cs }) else .error .noColon

/-- What may stand at the beginning of a member, and at the end of an
object whose last member is not followed by a comma. -/
def readMember (m : Manner) (s : State) : Except Fault Progress :=
  match skipBlanks s.text, s.phase, m with
  | '"' :: cs, _, _ => s.readKey m cs
  | '}' :: cs, .opened, _ => .ok (s.leave cs)
  | '}' :: _, _, .measured _ => .error .trailingComma
  | _ :: _, _, _ => .error .badKey
  | [], .opened, _ => .error .endInObject
  | [], _, .measured _ => .error .endInValue
  | [], _, .skimmed => .error .endInObject

/-- What may stand at the beginning of an element, and at the end of a
list whose last element is not followed by a comma. -/
def readElement (m : Manner) (s : State) : Except Fault Progress :=
  match skipBlanks s.text, s.phase, m with
  | ']' :: cs, .opened, _ => .ok (s.leave cs)
  | ']' :: _, _, .measured _ => .error .trailingComma
  | [], .opened, _ => .error .endInList
  | cs, _, _ => .ok (.more { s with phase := .value, text := cs })

/-- Reads the beginning of a value, and enters it where it is nested. -/
def readValue (m : Manner) (s : State) : Except Fault Progress := do
  let (t, cs) ← readToken (m != .skimmed) s.text
  match t, m with
  | .opening f, .measured room =>
    if s.around.length + 1 < room then
      return .more ⟨f, s.frame :: s.around, .opened, cs⟩
    else
      .error .tooDeep
  | .opening f, .skimmed => return .more ⟨f, s.frame :: s.around, .opened, cs⟩
  | t, .measured _ => do
    let _ ← t.item
    return .more { s with phase := .finished, text := cs }
  | _, .skimmed => return .more { s with phase := .finished, text := cs }

/-- Reads the comma or the bracket behind a value. -/
def readBehind (s : State) : Except Fault Progress :=
  match s.frame, skipBlanks s.text with
  | .list, [] => .error .endInList
  | .object, [] => .error .endInObject
  | _, ',' :: cs => .ok (.more { s with phase := .continued, text := cs })
  | .list, ']' :: cs => .ok (s.leave cs)
  | .object, '}' :: cs => .ok (s.leave cs)
  | .list, _ => .error .noListEnd
  | .object, _ => .error .noObjectEnd

/-- One step of the machine. -/
def step (m : Manner) (s : State) : Except Fault Progress :=
  match s.phase, s.frame with
  | .value, _ => s.readValue m
  | .finished, _ => s.readBehind
  | _, .list => s.readElement m
  | _, .object => s.readMember m

/-- So many steps of the machine at most; the text behind the outermost
bracket when they are enough. -/
def run (m : Manner) : Nat → State → Except Fault (List Char)
  | 0, _ => .error .endInValue
  | steps + 1, s => do
    match ← s.step m with
    | .done rest => return rest
    | .more s => run m steps s

end State

/-- Reads to the closing bracket that belongs to an opening one. -/
def readNested (m : Manner) (f : Frame) (cs : List Char) : Except Fault (List Char) :=
  State.run m (2 * cs.length + 2) ⟨f, [], .opened, cs⟩

/-- How deep lists and objects may be nested in a value that is wanted. -/
def nestingLimit : Nat := 127

/-- Reads a whole value with room for so many nested levels.  Answers what
it is, as far as its beginning tells, and the text behind it. -/
def readWhole? (room : Nat) (cs : List Char) : Except Fault (Item × List Char) := do
  let (i, cs) ← readItem cs
  match i with
  | .opening f =>
    if room = 0 then .error .tooDeep
    else return (i, ← readNested (.measured room) f cs)
  | i => return (i, cs)

/-- Passes over a whole value.  Answers the text behind it. -/
def skipValue (cs : List Char) : Except Fault (List Char) := do
  let (t, cs) ← readToken false cs
  match t with
  | .opening f => readNested .skimmed f cs
  | _ => return cs

/-- Nothing but blanks may follow the value of a text. -/
def finish (cs : List Char) : Except Fault Unit :=
  match skipBlanks cs with
  | [] => .ok ()
  | _ => .error .trailingText

end CursorTree.Json
