import ErDiagram.Reference.Path

/-!
# Queries

A query reads chosen columns.  One column is read from its own table.  Several are read from the
table of the first, the *base*, joined with whatever tables lie on the paths from there to the
tables of the others.  The columns are taken by the length of their paths, shorter ones first, and
otherwise in the order in which they were chosen; a table is joined under each name once.  A column
whose table no path leads to is left out.

The order of the routes is the order of everything else: of the selected columns, and of the joins,
each of which comes behind the joins that its own hop starts from.  The sorting is stable, so
columns with paths of one length stay in the order of their choice.
-/

set_option autoImplicit false

namespace ErDiagram

/-- A column of a query: the name of a table in the query and a field. -/
structure Selected where
  /-- The name of the table in the query. -/
  source : String
  /-- The field. -/
  field : String
  deriving DecidableEq, Repr

/-- A query. -/
inductive Query where
  /-- One column, from its own table. -/
  | single (column : Column)
  /-- Columns from a base table and the tables joined to it. -/
  | joined (selected : List Selected) (base : String) (joins : List Join)
  deriving DecidableEq, Repr

/-- A chosen column and the path to its table. -/
structure Route where
  /-- The column. -/
  column : Column
  /-- The path from the base to the table of the column, if there is one. -/
  path : Option Path
  deriving DecidableEq, Repr

namespace Route

/-- The number of tables on the path of a route; zero if there is no path. -/
def length (r : Route) : Nat := (r.path.map Path.length).getD 0

/-- The column that a route adds to a query. -/
def selected? (r : Route) : Option Selected := r.path.map fun p ↦ ⟨p.lastAlias, r.column.field⟩

/-- The joins that a route needs. -/
def joins (r : Route) : List Join := (r.path.map Path.joins).getD []

/-- The routes from a base to the chosen columns, shorter ones first. -/
def all (g : ReferenceGraph) (base : String) (columns : List Column) : List Route :=
  (columns.map fun c ↦ ⟨c, Path.find? g columns base c.table⟩).mergeSort
    fun r s ↦ decide (r.length ≤ s.length)

end Route

/-- The joins of a list whose name is not bound, neither before nor by an earlier join. -/
def Join.unbound (bound : List String) : List Join → List Join
  | [] => []
  | j :: js =>
    if j.name ∈ bound then unbound bound js else j :: unbound (j.name :: bound) js

namespace Query

/-- The query that takes some routes from a base. -/
def ofRoutes (base : String) (routes : List Route) : Query :=
  .joined (routes.filterMap Route.selected?) base (Join.unbound [base] (routes.flatMap Route.joins))

/-- The query for chosen columns.  There is none for no columns, and none for several if the table
of the first is not declared. -/
def ofColumns? (columns : List Column) (tables : List Table) : Option Query :=
  match columns with
  | [] => none
  | [c] => some (.single c)
  | c :: _ =>
    let g := ReferenceGraph.ofTables tables
    if c.table ∈ g.names then some (ofRoutes c.table (Route.all g c.table columns)) else none

/-- The columns that the query for chosen columns leaves out, and the base that no path leads from
to their tables. -/
def leftOut (columns : List Column) (tables : List Table) : List (String × Column) :=
  match columns with
  | [] | [_] => []
  | c :: _ =>
    let g := ReferenceGraph.ofTables tables
    if c.table ∈ g.names then
      ((Route.all g c.table columns).filter (·.path.isNone)).map fun r ↦ (c.table, r.column)
    else []

/-! ## Queries as text

The text has one line for each selected column, one for the base and one for each join.  A join
whose name in the query is that of its table does not repeat it. -/

/-- A join as a line of text. -/
def joinText (j : Join) : String :=
  "inner join " ++ j.table ++ (if j.name = j.table then "" else " as " ++ j.name) ++
    " on " ++ j.name ++ "." ++ j.field ++ " = " ++ j.previousName ++ "." ++ j.previousField

/-- Selected columns as lines of text; a comma stands in front of all but the first. -/
def selectLines : List Selected → List String
  | [] => []
  | s :: ss => ("  " ++ s.source ++ "." ++ s.field) ::
      ss.map fun s ↦ ", " ++ s.source ++ "." ++ s.field

/-- A query as text. -/
def text : Query → String
  | single c => "select " ++ c.field ++ " from " ++ c.table
  | joined selected base joins =>
    "\n".intercalate <|
      "select" :: selectLines selected ++ ("from " ++ base) :: joins.map joinText

end Query
end ErDiagram
