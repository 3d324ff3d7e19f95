/-
CursorTree.Session.Desk — named tag registries and named rows.

A name that has not been used stands for an empty registry or an empty row.
-/
import CursorTree.Tags

namespace CursorTree

/-- Named registries and named rows. -/
structure Desk where
  registries : Dict Tags := .empty
  rows : Dict Row := .empty

namespace Desk

/-- The registry of a name. -/
def registry (d : Desk) (name : String) : Tags := (d.registries.get? name).getD .empty

/-- The row of a name. -/
def row (d : Desk) (name : String) : Row := (d.rows.get? name).getD .empty

/-- The desk with a registry put at a name. -/
def setRegistry (d : Desk) (name : String) (t : Tags) : Desk :=
  { d with registries := d.registries.insert name t }

/-- The desk with a row put at a name. -/
def setRow (d : Desk) (name : String) (r : Row) : Desk :=
  { d with rows := d.rows.insert name r }

/-- What can be asked of a registry. -/
inductive Command where
  | renew
  | add (tag : String)
  | addFixed (tag : String) (v : Value)
  | merge (other : String)
  | copyTo (other : String)
  | state
  | same (other : String)
  | bind (row : String) (bindings : Row)
  | write (row : String) (current : Option Value)

/-- What a command answers. -/
inductive Answer where
  | tags (t : Tags)
  | flag (b : Bool)
  | row (r : Row)

/-- Serves a command on the registry of a name. -/
def serve (d : Desk) (name : String) : Command → Answer × Desk
  | .renew => grown .empty
  | .add tag => grown ((d.registry name).add tag)
  | .addFixed tag v => grown ((d.registry name).addFixed tag v)
  | .merge other => grown ((d.registry name).merge (d.registry other))
  | .copyTo other =>
    (.tags (d.registry name), d.setRegistry other (d.registry name))
  | .state => (.tags (d.registry name), d)
  | .same other => (.flag (d.registry name = d.registry other), d)
  | .bind row r => (.row r, d.setRow row r)
  | .write row current =>
    let r := (d.registry name).write current (d.row row)
    (.row r, d.setRow row r)
where
  /-- Puts a registry at the name and answers it. -/
  grown (t : Tags) : Answer × Desk := (.tags t, d.setRegistry name t)

end Desk

end CursorTree
