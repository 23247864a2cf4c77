import ErDiagram.Presentation
import ErDiagram.Schema.Table

/-!
# Diagrams

A diagram is a list of tables and the way it is drawn.

Neither the names of the tables nor the fields need be different from each other, and a reference
may be to a table that does not exist.  The order of the tables is part of a diagram, since the
first of several tables with one name is the one that counts; of the presentation only the values of
its settings are, and so diagrams are compared by `same` and not by equality.
-/

set_option autoImplicit false

namespace ErDiagram

/-- An entity-relationship diagram. -/
structure Diagram where
  /-- The tables, in the order of declaration. -/
  tables : List Table := []
  /-- How the diagram is drawn. -/
  presentation : Presentation := {}
  deriving DecidableEq

namespace Diagram

/-- The first table with a given name. -/
def table? (d : Diagram) (name : String) : Option Table := Table.find? d.tables name

/-- The names of the tables. -/
def names (d : Diagram) : List String := d.tables.map Table.name

/-- Whether two diagrams hold the same tables and are drawn the same. -/
def same (d e : Diagram) : Bool := d.tables == e.tables && d.presentation.same e.presentation

end Diagram
end ErDiagram
