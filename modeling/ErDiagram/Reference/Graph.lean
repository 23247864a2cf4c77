import ErDiagram.Schema.Column
import ErDiagram.Schema.Table

/-!
# The graph of references

Which tables refer to which.  Of several tables with one name only the first declaration counts.
References may name tables that are not declared, or the table they belong to.

The foreign keys of a table are grouped by the table they refer to, in the order in which the
targets first come up (`outgoing`); the tables that refer to a given one are listed in the order of
declaration (`referencedBy`), and so are their foreign keys to it (`incoming`).

The first declarations are taken once, when the graph is made, and the graph carries the proof that
their names are all different.  What comes later need not think of a second declaration again:
looking a name up finds the one table there is, and a list of names of the graph never has one
twice.

A graph is made from tables and from nothing else.  The chosen columns of a query come in at one
place only, where several foreign keys lead from one table to another and one of them has to be
followed (`preferred?`).
-/

set_option autoImplicit false

namespace ErDiagram

/-- A foreign key: the name of a field and what the field refers to. -/
structure ForeignKey where
  /-- The name of the field. -/
  field : String
  /-- What it refers to. -/
  reference : Reference
  deriving DecidableEq, Repr

namespace Table

/-- The foreign keys of a table, in the order of declaration. -/
def foreignKeys (t : Table) : List ForeignKey :=
  t.fields.filterMap fun f ↦ f.reference.map (⟨f.name, ·⟩)

/-- The tables whose name no earlier table has. -/
def firstDeclarations : List Table → List Table
  | [] => []
  | t :: ts => t :: (firstDeclarations ts).filter (·.name ≠ t.name)

theorem nodup_firstDeclarations (ts : List Table) :
    ((firstDeclarations ts).map Table.name).Nodup := by
  induction ts with
  | nil => exact List.nodup_nil
  | cons t ts ih =>
    rw [firstDeclarations, List.map_cons, List.nodup_cons]
    refine ⟨by simp, List.Nodup.sublist ?_ ih⟩
    exact List.Sublist.map _ List.filter_sublist

end Table

/-- The graph of the references between tables. -/
structure ReferenceGraph where
  /-- The tables, in the order of declaration. -/
  tables : List Table
  /-- No name is declared twice. -/
  nodup : (tables.map Table.name).Nodup

namespace ReferenceGraph

/-- The graph of a list of tables. -/
def ofTables (tables : List Table) : ReferenceGraph :=
  ⟨Table.firstDeclarations tables, Table.nodup_firstDeclarations tables⟩

/-- The names of the declared tables. -/
def names (g : ReferenceGraph) : List String := g.tables.map Table.name

/-- The foreign keys of a table; none if it is not declared. -/
def foreignKeys (g : ReferenceGraph) (table : String) : List ForeignKey :=
  ((Table.find? g.tables table).map Table.foreignKeys).getD []

/-- The foreign keys of one table that refer to another. -/
def foreignKeysTo (g : ReferenceGraph) (source target : String) : List ForeignKey :=
  (g.foreignKeys source).filter (·.reference.table == target)

/-- The foreign keys of a table, grouped by the table they refer to. -/
def outgoing (g : ReferenceGraph) (source : String) : List (String × List ForeignKey) :=
  ((g.foreignKeys source).map (·.reference.table)).eraseDups.map fun target ↦
    (target, g.foreignKeysTo source target)

/-- The declared tables that refer to a table. -/
def referencedBy (g : ReferenceGraph) (target : String) : List String :=
  (g.tables.filter fun t ↦ t.foreignKeys.any (·.reference.table == target)).map Table.name

/-- The declared tables that refer to a table, each with its foreign keys to it. -/
def incoming (g : ReferenceGraph) (target : String) : List (String × List ForeignKey) :=
  (g.referencedBy target).map fun source ↦ (source, g.foreignKeysTo source target)

/-- All tables that are referred to, in the order in which they first come up. -/
def referenced (g : ReferenceGraph) : List String :=
  (g.tables.flatMap fun t ↦ t.foreignKeys.map (·.reference.table)).eraseDups

/-- Which of several foreign keys to a table is followed: the first whose field has the name of the
field of a chosen column on a table that refers to the target as well, or else the first. -/
def preferred? (g : ReferenceGraph) (target : String) (keys : List ForeignKey)
    (columns : List Column) : Option ForeignKey :=
  (keys.find? fun k ↦
    columns.any fun c ↦ c.field == k.field && (g.referencedBy target).contains c.table).or
    keys.head?

end ReferenceGraph
end ErDiagram
