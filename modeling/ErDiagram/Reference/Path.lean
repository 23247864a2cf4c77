import ErDiagram.Reference.Graph
import ErDiagram.Reference.Search

/-!
# Paths along references

A path leads from one table to another over foreign keys.  Each of its hops follows one foreign key:
forwards, from the table that declares it to the table it refers to, or in reverse.

`Path.find?` prefers paths that only go forwards, and of those takes the one that depth-first search
meets first; only if there is none does it take a shortest path that may also go in reverse.

A path is kept as the list of its hops and the table it ends at.  Where it starts is read off its
first hop, and where each hop leads off the next one, so that no table is kept twice and none can be
wrong.  A path without hops is one from a table to itself.

Each table on a path has a name in the query (`Path.aliases`), which is decided by the hop that
leads to it (`Hop.nextName`), and each table but the first is joined under this name (`Path.joins`).
The condition of a join speaks of the joined table and of the one before it, each by its name in the
query, so the joins are made in one pass over the hops that hands the name of the table before
along.
-/

set_option autoImplicit false

namespace ErDiagram

/-! ## Hops and paths

A hop is one step along a foreign key, in its direction or against it. -/

/-- One hop of a path. -/
structure Hop where
  /-- The table that the hop starts from. -/
  table : String
  /-- The field that is the foreign key.  It belongs to the table the hop starts from, or, for a hop
  in reverse, to the table it leads to. -/
  field : String
  /-- The field that the foreign key refers to, in the other of the two tables. -/
  target : String
  /-- Whether the foreign key is followed in reverse. -/
  reverse : Bool
  deriving DecidableEq, Repr

/-- A path from a table to a table. -/
structure Path where
  /-- The hops of the path. -/
  hops : List Hop
  /-- The table it leads to. -/
  last : String
  deriving DecidableEq, Repr

namespace ReferenceGraph

/-- The hop from a table along one of several foreign keys to `target`. -/
def hop? (g : ReferenceGraph) (columns : List Column) (table target : String) (reverse : Bool)
    (keys : List ForeignKey) : Option Hop :=
  (g.preferred? target keys columns).map fun k ↦
    { table, field := k.field, target := k.reference.field, reverse }

/-- The hops from a table to the tables it refers to. -/
def forwardHops (g : ReferenceGraph) (columns : List Column) (table : String) :
    List (Hop × String) :=
  (g.outgoing table).filterMap fun (next, keys) ↦
    (g.hop? columns table next false keys).map (·, next)

/-- The hops from a table to the tables that refer to it. -/
def reverseHops (g : ReferenceGraph) (columns : List Column) (table : String) :
    List (Hop × String) :=
  (g.incoming table).filterMap fun (next, keys) ↦
    (g.hop? columns table table true keys).map (·, next)

/-- The hops of the first path from `base` to another table that depth-first search meets going
forwards only. -/
def forwardSearch (g : ReferenceGraph) (columns : List Column) (base target : String) :
    Option (List Hop) :=
  Search.depthFirst g.names (g.forwardHops columns) target [base]
    (Search.Trail.extend ([], base) (g.forwardHops columns base))

/-- The hops of a shortest path from `base` to a table, forwards and in reverse. -/
def undirectedSearch (g : ReferenceGraph) (columns : List Column) (base target : String) :
    Option (List Hop) :=
  Search.breadthFirst g.names (fun t ↦ g.forwardHops columns t ++ g.reverseHops columns t) target
    [base] [([], base)]

end ReferenceGraph

namespace Path

/-- The number of tables on a path. -/
def length (p : Path) : Nat := p.hops.length + 1

/-- The path from `base` to a table, if the two are connected. -/
def find? (g : ReferenceGraph) (columns : List Column) (base target : String) : Option Path :=
  if base = target then some ⟨[], target⟩
  else
    ((g.forwardSearch columns base target).or (g.undirectedSearch columns base target)).map
      (⟨·, target⟩)

/-- The table that the first of some hops starts from, or the table at the end if there is none. -/
def start (hops : List Hop) (last : String) : String := (hops.head?.map Hop.table).getD last

end Path

/-- The name for the table that a hop leads to: forwards, that of the foreign key without its ending
`_id`, if something remains; else the name of the table. -/
def Hop.nextName (h : Hop) (next : String) : String :=
  if h.reverse ∨ withoutIdSuffix h.field = "" then next else withoutIdSuffix h.field

/-! ## Joins

A hop becomes a join of a query.  The names that the tables have in the query are settled hop by
hop, since a table is named after the foreign key that leads to it. -/

/-- A table joined to a query. -/
structure Join where
  /-- The table. -/
  table : String
  /-- The name it has in the query. -/
  name : String
  /-- The field of this table in the join condition. -/
  field : String
  /-- The name of the table before it on the path. -/
  previousName : String
  /-- The field of that table in the join condition. -/
  previousField : String
  deriving DecidableEq, Repr

namespace Path

/-- The joins for some hops that start from a table with a given name. -/
def joinsFrom (previousName : String) (last : String) : List Hop → List Join
  | [] => []
  | h :: hops =>
    let table := start hops last
    let name := h.nextName table
    { table
      name
      field := if h.reverse then h.field else h.target
      previousName
      previousField := if h.reverse then h.target else h.field } ::
      joinsFrom name last hops

/-- The joins for all tables of a path behind the first, which goes by its own name. -/
def joins (p : Path) : List Join := joinsFrom (start p.hops p.last) p.last p.hops

/-- The names of the tables of a path in a query. -/
def aliases (p : Path) : List String := start p.hops p.last :: p.joins.map Join.name

/-- The name of the last table of a path in a query. -/
def lastAlias (p : Path) : String := p.aliases.getLast (by simp [aliases])

end Path
end ErDiagram
