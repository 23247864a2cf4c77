import ErDiagram.Proofs.Reference.ForeignKeys
import ErDiagram.Query

/-!
# The names of a query are well scoped

The line of a join introduces one name: the one behind `as` or, where no `as` is written, that of
the joined table.  `Query.WellScoped` says that a query introduces no name twice, that the condition
of each join speaks of the name its own line introduces and of one from a line above, and that every
selected column has a name that some line introduces.

What carries the proof is `Join.Rooted`: every join of a list starts from a name bound before it.
The joins of a path are rooted in its base, so are the joins of all paths in a row, and leaving out
those whose name is taken already keeps that up, because the name they would have bound is bound.
The main statement is `Query.wellScoped_ofColumns?`.

The scope of a name is said of the lines of the text and not of the list of joins, because a join
has a name whether it is written or not: where the name is that of the table, the line leaves `as`
out, and what the line introduces is then the table itself.  `JoinLine` takes a line apart as a
reader of the query would, and `Join.text_line` says that this is the line that is written.

The joins that are left out are the reason why scope is a question at all.  A query wants every
table on every path, but takes a name only once; a later join may then start from a name whose own
join was left out.  It is still bound, by the join that took the name first, though perhaps to
another table.  Whether it is the right table is the subject of `ErDiagram.Proofs.Query.Capture`;
here it only matters that there is one.
-/

set_option autoImplicit false

namespace ErDiagram

/-! ## The line of a join

The line of a join as data: the joined table, the name behind `as`, and the two sides of the
condition, each a name with a field.  The left side speaks of the joined table and the right side of
the one before it. -/

/-- What the line of a join says. -/
structure JoinLine where
  /-- The joined table. -/
  table : String
  /-- The name behind `as`, if there is one. -/
  asName : Option String
  /-- The left side of the condition. -/
  left : Selected
  /-- The right side of the condition. -/
  right : Selected
  deriving DecidableEq, Repr

/-- The line itself. -/
def JoinLine.text (l : JoinLine) : String :=
  "inner join " ++ l.table ++ l.asName.elim "" (" as " ++ ·) ++ " on " ++
    l.left.source ++ "." ++ l.left.field ++ " = " ++ l.right.source ++ "." ++ l.right.field

/-- The name that a line introduces. -/
def JoinLine.introduced (l : JoinLine) : String := l.asName.getD l.table

namespace Join

/-- The line of a join. -/
def line (j : Join) : JoinLine where
  table := j.table
  asName := if j.name = j.table then none else some j.name
  left := ⟨j.name, j.field⟩
  right := ⟨j.previousName, j.previousField⟩

theorem text_line (j : Join) : j.line.text = Query.joinText j := by
  have has : j.line.asName.elim "" (" as " ++ ·) =
      if j.name = j.table then "" else " as " ++ j.name := by
    rw [line]
    split <;> rfl
  unfold JoinLine.text Query.joinText
  rw [has]
  simp only [line]

@[simp]
theorem introduced_line (j : Join) : j.line.introduced = j.name := by
  rw [JoinLine.introduced, line]
  split
  · next h => exact h.symm
  · rfl

@[simp]
theorem source_left_line (j : Join) : j.line.left.source = j.name := rfl

@[simp]
theorem source_right_line (j : Join) : j.line.right.source = j.previousName := rfl

end Join

/-- The text of a query has the line of the base below the entries, and below it those of the
joins. -/
theorem Query.text_joined (selected : List Selected) (base : String) (joins : List Join) :
    (joined selected base joins).text = "\n".intercalate
      ("select" :: selectLines selected ++
        ("from " ++ base) :: (joins.map Join.line).map JoinLine.text) := by
  rw [text, List.map_map, Function.comp_def]
  simp only [Join.text_line]

namespace Join

/-! ## Joins with a name that is not bound yet

What `Join.unbound` keeps and what it leaves out, by the same recursion: a list of names grows with
each join that is taken, and the next join is taken if its name is not among them.  The names taken
are new and all different (`nodup_names_unbound`), and every name that was wanted is bound in the
end (`name_bound_of_mem`). -/

/-- No name of an unbound join is bound before. -/
theorem name_not_mem_of_mem_unbound {bound : List String} {js : List Join} {j : Join}
    (h : j ∈ unbound bound js) : j.name ∉ bound := by
  induction js generalizing bound with
  | nil => cases h
  | cons k ks ih =>
    rw [unbound] at h
    split at h
    · exact ih h
    · next hk =>
      rcases List.mem_cons.1 h with rfl | h
      · exact hk
      · exact fun hb ↦ ih h (List.mem_cons_of_mem _ hb)

theorem nodup_names_unbound (bound : List String) (js : List Join) :
    ((unbound bound js).map name).Nodup := by
  induction js generalizing bound with
  | nil => exact List.nodup_nil
  | cons k ks ih =>
    rw [unbound]
    split
    · exact ih bound
    · rw [List.map_cons, List.nodup_cons]
      refine ⟨fun hm ↦ ?_, ih _⟩
      obtain ⟨j, hj, hname⟩ := List.mem_map.1 hm
      exact name_not_mem_of_mem_unbound hj (hname ▸ List.mem_cons_self)

/-- The name of a join is bound in the end, whether the join itself is left out or not. -/
theorem name_bound_of_mem {bound : List String} {js : List Join} {j : Join} (h : j ∈ js) :
    j.name ∈ bound ++ (unbound bound js).map name := by
  induction js generalizing bound with
  | nil => cases h
  | cons k ks ih =>
    rw [unbound]
    rcases List.mem_cons.1 h with rfl | h
    · split
      · next hb => exact List.mem_append_left _ hb
      · simp
    · split
      · exact ih h
      · have hk : j.name ∈ k.name :: bound ++ _ := ih h
        simp only [List.cons_append, List.mem_cons, List.mem_append, List.map_cons] at hk ⊢
        exact or_left_comm.1 hk

/-! ## Joins that start from a bound name

The invariant of the list of joins.  It is stated for a list that follows some names bound already,
so that it can be taken apart at the front, and it only ever gains from more bound names
(`Rooted.mono`).  That is what allows rooted lists to stand one after the other, and what lets a
join be left out. -/

/-- Each join of a list starts from a name that is bound before the list or by a join above it. -/
def Rooted (bound : List String) : List Join → Prop
  | [] => True
  | j :: js => j.previousName ∈ bound ∧ Rooted (j.name :: bound) js

theorem Rooted.mono {bound bound' : List String} {js : List Join} (h : Rooted bound js)
    (hsub : bound ⊆ bound') : Rooted bound' js := by
  induction js generalizing bound bound' with
  | nil => trivial
  | cons j js ih => exact ⟨hsub h.1, ih h.2 (List.cons_subset_cons _ hsub)⟩

theorem Rooted.append {bound : List String} {js ks : List Join} (hj : Rooted bound js)
    (hk : Rooted bound ks) : Rooted bound (js ++ ks) := by
  suffices ∀ bound', bound ⊆ bound' → Rooted bound' js → Rooted bound' (js ++ ks) from
    this bound (List.Subset.refl _) hj
  clear hj
  intro bound' hsub hj
  induction js generalizing bound' with
  | nil => exact hk.mono hsub
  | cons j js ih => exact ⟨hj.1, ih _ (List.subset_cons_of_subset _ hsub) hj.2⟩

theorem Rooted.flatMap {ι : Type} {bound : List String} {rs : List ι} {f : ι → List Join}
    (h : ∀ r ∈ rs, Rooted bound (f r)) : Rooted bound (rs.flatMap f) := by
  induction rs with
  | nil => trivial
  | cons r rs ih =>
    rw [List.flatMap_cons]
    exact (h r List.mem_cons_self).append (ih fun s hs ↦ h s (List.mem_cons_of_mem _ hs))

/-- A join that is left out binds nothing that is not bound. -/
theorem Rooted.unbound {bound : List String} {js : List Join} (h : Rooted bound js) :
    Rooted bound (unbound bound js) := by
  induction js generalizing bound with
  | nil => trivial
  | cons j js ih =>
    rw [Join.unbound]
    split
    · next hb => exact ih (h.2.mono (List.cons_subset.2 ⟨hb, List.Subset.refl _⟩))
    · exact ⟨h.1, ih h.2⟩

theorem Rooted.previousName_mem {bound : List String} {js before after : List Join} {j : Join}
    (h : Rooted bound js) (hjs : js = before ++ j :: after) :
    j.previousName ∈ bound ++ before.map name := by
  induction before generalizing bound js with
  | nil =>
    subst hjs
    exact List.mem_append_left _ h.1
  | cons k ks ih =>
    subst hjs
    have hk := ih h.2 rfl
    simp only [List.cons_append, List.mem_cons, List.mem_append, List.map_cons] at hk ⊢
    exact or_left_comm.1 hk

end Join

/-- The joins of a path are rooted in the name of its first table. -/
theorem Path.rooted_joinsFrom {bound : List String} {previousName last : String} (hops : List Hop)
    (h : previousName ∈ bound) : Join.Rooted bound (joinsFrom previousName last hops) := by
  induction hops generalizing bound previousName with
  | nil => trivial
  | cons hop hops ih => exact ⟨h, ih List.mem_cons_self⟩

theorem Path.lastAlias_mem (p : Path) :
    p.lastAlias ∈ start p.hops p.last :: p.joins.map Join.name :=
  List.getLast_mem _

/-! ## The routes of a query

The routes are those of the chosen columns in another order, so a route is known by its column.
Each starts at the base, and the table of its column is the base or one that the route joins. -/

namespace Route

variable {g : ReferenceGraph} {base : String} {columns : List Column} {r : Route}

theorem mem_all : r ∈ all g base columns ↔
    ∃ c ∈ columns, ⟨c, Path.find? g columns base c.table⟩ = r := by
  rw [all, List.mem_mergeSort, List.mem_map]

theorem path_of_mem_all (hr : r ∈ all g base columns) :
    r.path = Path.find? g columns base r.column.table := by
  obtain ⟨c, _, rfl⟩ := mem_all.1 hr
  rfl

theorem rooted_joins (hr : r ∈ all g base columns) : Join.Rooted [base] r.joins := by
  rw [joins]
  cases hp : r.path with
  | none => trivial
  | some p =>
    have hstart := Path.start_of_find? ((path_of_mem_all hr).symm.trans hp)
    exact Path.rooted_joinsFrom _ (hstart ▸ List.mem_singleton_self _)

/-- The name of the column of a route is that of the base or of a join of the route. -/
theorem source_mem (hr : r ∈ all g base columns) {s : Selected} (hs : r.selected? = some s) :
    s.source ∈ base :: r.joins.map Join.name := by
  obtain ⟨p, hp, rfl⟩ := Option.map_eq_some_iff.1 hs
  have hstart := Path.start_of_find? ((path_of_mem_all hr).symm.trans hp)
  have hjoins : r.joins = p.joins := by rw [joins, hp]; rfl
  rw [hjoins, ← hstart]
  exact p.lastAlias_mem

end Route

/-! ## Well-scoped queries

The four conditions put together: for a list of routes that are rooted in the base, and then for the
routes of the chosen columns. -/

namespace Query

/-- The names of a query are well scoped. -/
structure WellScoped (selected : List Selected) (base : String) (lines : List JoinLine) : Prop where
  /-- No name is introduced twice, and that of the base not again. -/
  nodup : (base :: lines.map JoinLine.introduced).Nodup
  /-- The left side of a condition speaks of the table of its line. -/
  left : ∀ l ∈ lines, l.left.source = l.introduced
  /-- The right side of a condition speaks of a table from a line above. -/
  right : ∀ before l after, lines = before ++ l :: after →
    l.right.source ∈ base :: before.map JoinLine.introduced
  /-- A selected column is from a table of the query. -/
  selected : ∀ s ∈ selected, s.source ∈ base :: lines.map JoinLine.introduced

/-- The query for at least two columns takes the routes from the table of the first. -/
theorem ofColumns?_eq_some {c c' : Column} {cs : List Column} {tables : List Table}
    (h : c.table ∈ tables.map Table.name) :
    ofColumns? (c :: c' :: cs) tables =
      some (ofRoutes c.table
        (Route.all (ReferenceGraph.ofTables tables) c.table (c :: c' :: cs))) :=
  if_pos (Table.mem_names_firstDeclarations.2 h)

theorem wellScoped_ofRoutes {base : String} {routes : List Route}
    (hjoins : ∀ r ∈ routes, Join.Rooted [base] r.joins)
    (hselected : ∀ r ∈ routes, ∀ s, r.selected? = some s →
      s.source ∈ base :: r.joins.map Join.name) :
    WellScoped (routes.filterMap Route.selected?) base
      ((Join.unbound [base] (routes.flatMap Route.joins)).map Join.line) := by
  have hrooted := (Join.Rooted.flatMap hjoins).unbound
  have hnames : ∀ js : List Join, (js.map Join.line).map JoinLine.introduced = js.map Join.name :=
    fun js ↦ by simp [Function.comp_def]
  constructor
  case nodup =>
    rw [hnames, List.nodup_cons]
    refine ⟨fun hm ↦ ?_, Join.nodup_names_unbound _ _⟩
    obtain ⟨j, hj, hname⟩ := List.mem_map.1 hm
    exact Join.name_not_mem_of_mem_unbound hj (hname ▸ List.mem_singleton_self _)
  case left =>
    intro l hl
    obtain ⟨j, _, rfl⟩ := List.mem_map.1 hl
    simp
  -- what a join reads is bound above it: this is what it is for the joins to be rooted
  case right =>
    intro before l after hlines
    obtain ⟨js, ks, hjs, rfl, hks⟩ := List.map_eq_append_iff.1 hlines
    obtain ⟨j, ks, rfl, rfl, rfl⟩ := List.map_eq_cons_iff.1 hks
    rw [hnames]
    exact hrooted.previousName_mem hjs
  case selected =>
    intro s hs
    obtain ⟨r, hr, hrs⟩ := List.mem_filterMap.1 hs
    rw [hnames]
    rcases List.mem_cons.1 (hselected r hr s hrs) with hbase | hjoin
    · exact hbase ▸ List.mem_cons_self
    · obtain ⟨j, hj, hname⟩ := List.mem_map.1 hjoin
      rw [← hname, ← List.singleton_append]
      exact Join.name_bound_of_mem (List.mem_flatMap.2 ⟨r, hr, hj⟩)

/-- Tables in which two foreign keys of one name refer to different tables: a repository belongs to
a team, and a team to a user. -/
def ownedTables : List Table :=
  [{ name := "repo", fields := [{ name := "name" },
      { name := "owner_id", modifiers := { fk := true }, reference := some { table := "team" } }] },
   { name := "team", fields := [{ name := "name" },
      { name := "owner_id", modifiers := { fk := true }, reference := some { table := "user" } }] },
   { name := "user", fields := [{ name := "name" }] }]

end Query

end ErDiagram
