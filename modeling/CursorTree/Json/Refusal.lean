/-
CursorTree.Json.Refusal — why a text is not the wanted kind of data.

A text may fail to be JSON, or be JSON of another shape than is wanted.
A refusal names the cause; `message` is its wording.
-/
import CursorTree.Decimal.Shortest
import CursorTree.Json.Nesting
import CursorTree.Text.Quoted

namespace CursorTree.Json

/-- What may be wanted of a value. -/
inductive Wanted where
  | boolean
  | count
  | text
  | list
  | settings
  deriving DecidableEq

/-- The wording of what is wanted. -/
def Wanted.message : Wanted → String
  | boolean => "a boolean"
  | count => "usize"
  | text => "a string"
  | list => "a sequence"
  | settings => "struct EngineConfig"

/-- How floats are shown: with a point up to 10^16 and down to 10^-5, and
by an exponent with its sign beyond. -/
def floatStyle : Decimal.Style := ⟨-5, 16, "+"⟩

/-- The wording of what a value is. -/
def Item.message : Item → String
  | null => "null"
  | bool b => s!"boolean `{b}`"
  | number (.natural n) => s!"integer `{n}`"
  | number (.negative n) => s!"integer `-{n}`"
  | number (.float x) => s!"floating point `{Decimal.writeFloat floatStyle x}`"
  | text s => s!"string {Text.quoted s}"
  | opening .list => "sequence"
  | opening .object => "map"

/-- Why a text is refused. -/
inductive Refusal where
  /-- The text is not JSON. -/
  | malformed (fault : Fault)
  /-- A value is of another type than is wanted. -/
  | wrongType (found : Item) (wanted : Wanted)
  /-- A value has the wanted type, but is out of its range. -/
  | wrongValue (found : Item) (wanted : Wanted)
  /-- A member that may occur once occurs again. -/
  | repeated (member : String)
  /-- A value is neither an id nor a name. -/
  | noGraphValue

/-- The wording of a refusal. -/
def Refusal.message : Refusal → String
  | malformed f => f.message
  | wrongType i w => s!"invalid type: {i.message}, expected {w.message}"
  | wrongValue i w => s!"invalid value: {i.message}, expected {w.message}"
  | repeated m => s!"duplicate field `{m}`"
  | noGraphValue => "data did not match any variant of untagged enum Value"

/-- A fault of the text is a reason to refuse it. -/
def require {α : Type} : Except Fault α → Except Refusal α
  | .ok a => .ok a
  | .error f => .error (.malformed f)

end CursorTree.Json
