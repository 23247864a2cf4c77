import ErDiagram.Error
import ErDiagram.Text.Blank

/-!
# Columns

A column is a field of a table, chosen for a query.  It is written with a point between the two
names.

The names may hold anything else, blanks and points included, as far as they come through: the first
point ends the name of the table, and all behind it is the name of the field.
-/

set_option autoImplicit false

namespace ErDiagram

/-- A chosen field of a table. -/
structure Column where
  /-- The name of the table. -/
  table : String
  /-- The name of the field. -/
  field : String
  deriving DecidableEq, Repr

namespace Column

/-- A column as text. -/
def text (c : Column) : String := c.table ++ "." ++ c.field

/-- The column that a text names.  Blanks around it do not count; the first point separates the
table from the field, and neither may be empty. -/
def ofText (s : String) : Except Error Column :=
  let cs := Text.trim s.toList
  let table := cs.takeWhile (· ≠ '.')
  let field := (cs.dropWhile (· ≠ '.')).drop 1
  if table.isEmpty || field.isEmpty then .error (.malformedColumn s)
  else .ok ⟨String.ofList table, String.ofList field⟩

end Column
end ErDiagram
