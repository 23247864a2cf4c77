import ErDiagram.Proofs.Query.Scope

/-!
# Which table a name of a query stands for

A name of a query may be wanted by several tables: it comes from the field of a foreign key, and
different tables may have foreign keys of one name, or one that is called like the base.  The first
table on the routes that wants a name gets it; a column or a condition that means another table by
that name is *captured*.

`Query.ReadsOwnTables` says that no column and no condition is misled: every selected column is read
from its own table, and every condition speaks of the table that comes before on the path.  This
fails for some diagrams (`Query.not_readsOwnTables_ownedTables`), and `Query.readsOwnTables_iff`
says for which: those with a captured stop whose name the query uses.

To say which stop comes first, the query is followed in the order in which it was made: route by
route, and on each route from the base outwards.  A `Leg` is a join together with the table that it
starts from, which the join itself does not tell, as it knows that table only by its name.  The legs
a query takes are the first ones with their names (`Leg.mem_unbound_iff`), and what a name stands
for is decided by the first stop that wants it (`Query.binds_iff`).  Both say the same of one list,
read from the front; the condition in `Query.readsOwnTables_iff` is then a statement about that list
alone and does not mention which joins were taken.
-/

set_option autoImplicit false

namespace ErDiagram

/-! ## The stops of a route

A path passes through stops, each a table with the name it wants, and between two of them goes a
leg.  The base is a stop that wants its own name.  All routes of a query one after the other make
one list of legs, and from it come both the joins and the stops. -/

/-- A table on a path with the name it wants to have in the query. -/
structure Stop where
  /-- The table. -/
  table : String
  /-- Its name. -/
  name : String
  deriving DecidableEq, Repr

/-- A join together with the table before it on the path that it is for. -/
structure Leg where
  /-- The table before. -/
  previousTable : String
  /-- The join. -/
  join : Join
  deriving DecidableEq, Repr

namespace Leg

/-- The stop that a leg starts from. -/
def previous (l : Leg) : Stop := ⟨l.previousTable, l.join.previousName⟩

/-- The stop that a leg leads to. -/
def stop (l : Leg) : Stop := ⟨l.join.table, l.join.name⟩

/-- The legs whose join a query takes, if some names are bound already. -/
def unbound (bound : List String) : List Leg → List Leg
  | [] => []
  | l :: ls =>
    if l.join.name ∈ bound then unbound bound ls else l :: unbound (l.join.name :: bound) ls

theorem map_join_unbound (bound : List String) (ls : List Leg) :
    (unbound bound ls).map join = Join.unbound bound (ls.map join) := by
  induction ls generalizing bound with
  | nil => rfl
  | cons l ls ih =>
    rw [unbound, List.map_cons, Join.unbound]
    split
    · exact ih bound
    · rw [List.map_cons, ih]

/-- The join of a leg is taken when the leg is the first with its name. -/
theorem mem_unbound_iff {bound : List String} {ls : List Leg} {l : Leg} :
    l ∈ unbound bound ls ↔ l.join.name ∉ bound ∧
      ∃ before after, ls = before ++ l :: after ∧ ∀ k ∈ before, k.join.name ≠ l.join.name := by
  induction ls generalizing bound with
  | nil => simp [unbound]
  | cons k ks ih =>
    -- the first leg of a name is the head, or stands below a head of another name
    have hcons : (∃ before after, k :: ks = before ++ l :: after ∧
          ∀ m ∈ before, m.join.name ≠ l.join.name) ↔
        k = l ∨ k.join.name ≠ l.join.name ∧ ∃ before after, ks = before ++ l :: after ∧
          ∀ m ∈ before, m.join.name ≠ l.join.name := by
      constructor
      · rintro ⟨before, after, heq, hne⟩
        cases before with
        | nil => exact .inl (List.cons.inj heq).1
        | cons m ms =>
          obtain ⟨rfl, rfl⟩ := List.cons.inj heq
          exact .inr ⟨hne k List.mem_cons_self, ms, after, rfl,
            fun n hn ↦ hne n (List.mem_cons_of_mem _ hn)⟩
      · rintro (rfl | ⟨hk, before, after, rfl, hne⟩)
        · exact ⟨[], ks, rfl, by simp⟩
        · exact ⟨k :: before, after, rfl, List.forall_mem_cons.2 ⟨hk, hne⟩⟩
    rw [unbound, hcons]
    split
    · next hb =>
      rw [ih]
      constructor
      · rintro ⟨hl, hrest⟩
        exact ⟨hl, .inr ⟨fun he ↦ hl (he ▸ hb), hrest⟩⟩
      · rintro ⟨hl, rfl | ⟨_, hrest⟩⟩
        · exact absurd hb hl
        · exact ⟨hl, hrest⟩
    · next hb =>
      rw [List.mem_cons, ih, List.mem_cons, not_or]
      constructor
      · rintro (rfl | ⟨⟨hk, hl⟩, hrest⟩)
        · exact ⟨hb, .inl rfl⟩
        · exact ⟨hl, .inr ⟨fun he ↦ hk he.symm, hrest⟩⟩
      · rintro ⟨hl, rfl | ⟨hk, hrest⟩⟩
        · exact .inl rfl
        · exact .inr ⟨⟨fun he ↦ hk he.symm, hl⟩, hrest⟩

end Leg

/-! ### The legs of a route

A path lists its hops from the base outwards, so hops and joins are paired as they come.  Forgetting
the tables again gives the joins of the route. -/

/-- The legs of a path. -/
def Path.legs (p : Path) : List Leg := p.hops.zipWith (fun h j ↦ ⟨h.table, j⟩) p.joins

/-- The legs of a route. -/
def Route.legs (r : Route) : List Leg := (r.path.map Path.legs).getD []

theorem Path.map_join_legs (p : Path) : p.legs.map Leg.join = p.joins := by
  have aux (last : String) (hops : List Hop) (name : String) :
      (hops.zipWith (fun h j ↦ (⟨h.table, j⟩ : Leg)) (joinsFrom name last hops)).map Leg.join =
        joinsFrom name last hops := by
    induction hops generalizing name with
    | nil => rfl
    | cons h hops ih => rw [joinsFrom, List.zipWith_cons_cons, List.map_cons, ih]
  exact aux _ _ _

theorem Route.map_join_legs (r : Route) : r.legs.map Leg.join = r.joins := by
  rw [legs, joins]
  cases r.path with
  | none => rfl
  | some p => exact p.map_join_legs

theorem Route.map_join_flatMap_legs (routes : List Route) :
    (routes.flatMap legs).map Leg.join = routes.flatMap joins := by
  rw [List.map_flatMap]
  exact congrArg (routes.flatMap ·) (funext map_join_legs)

namespace Stop

/-! ### Stops that are captured

Whether a stop is captured is decided by the stops in front of it, in the order of the routes.  It
matters only if the query uses the name of the stop: for a column at the end of a route, or on the
right of a condition that is taken. -/

/-- All stops of some routes from a base, in the order in which the query comes to them. -/
def ofRoutes (base : String) (routes : List Route) : List Stop :=
  ⟨base, base⟩ :: (routes.flatMap Route.legs).map Leg.stop

/-- The first of some stops that wants the name of a given one is another table. -/
def Captured (stops : List Stop) (s : Stop) : Prop :=
  ∃ t, stops.find? (·.name == s.name) = some t ∧ t.table ≠ s.table

/-- A query uses the name of a stop for a selected column, if a route ends there, and for the
condition of a join, if a leg starts there that is the first to bring its name. -/
inductive Used (base : String) (routes : List Route) : Stop → Prop
  | selected {r : Route} {p : Path} (hr : r ∈ routes) (hp : r.path = some p) :
      Used base routes ⟨p.last, p.lastAlias⟩
  | previous {l : Leg} {before after : List Leg}
      (hlegs : routes.flatMap Route.legs = before ++ l :: after) (hbase : l.join.name ≠ base)
      (hfirst : ∀ k ∈ before, k.join.name ≠ l.join.name) : Used base routes l.previous

end Stop

/-! ## What a name is bound to

A name stands for the base, if it is that of the base, and else for the table of the one join that
was taken under that name.  Since of several joins with one name the first is taken, this is the
table of the first stop with that name, and a stop is captured if that is another table than its
own. -/

namespace Join

/-- Of several joins with one name the query takes the first. -/
theorem exists_mem_unbound_iff {bound : List String} {js : List Join} {n t : String}
    (hn : n ∉ bound) :
    (∃ j ∈ unbound bound js, j.name = n ∧ j.table = t) ↔
      ∃ j, js.find? (·.name == n) = some j ∧ j.table = t := by
  induction js generalizing bound with
  | nil => simp [unbound]
  | cons k ks ih =>
    by_cases hk : k.name = n
    · rw [unbound, if_neg (hk ▸ hn), List.find?_cons_of_pos (by simpa using hk)]
      constructor
      · rintro ⟨j, hj, hname, htable⟩
        rcases List.mem_cons.1 hj with rfl | hj
        · exact ⟨j, rfl, htable⟩
        · refine absurd ?_ (name_not_mem_of_mem_unbound hj)
          rw [hname, hk]
          exact List.mem_cons_self
      · rintro ⟨j, hj, htable⟩
        obtain rfl := Option.some.inj hj
        exact ⟨k, List.mem_cons_self, hk, htable⟩
    · rw [unbound, List.find?_cons_of_neg (by simpa using hk)]
      split
      · exact ih hn
      · rw [← ih fun hm ↦ (List.mem_cons.1 hm).elim (fun he ↦ hk he.symm) hn]
        constructor
        · rintro ⟨j, hj, hname, htable⟩
          rcases List.mem_cons.1 hj with rfl | hj
          · exact absurd hname hk
          · exact ⟨j, hj, hname, htable⟩
        · rintro ⟨j, hj, h⟩
          exact ⟨j, List.mem_cons_of_mem _ hj, h⟩

end Join

namespace Query

/-- A name of a query stands for a table: the line for the base introduces it for the base, or the
line of a join for the joined table. -/
def Binds (base : String) (joins : List Join) (name table : String) : Prop :=
  (name = base ∧ table = base) ∨ ∃ j ∈ joins, j.name = name ∧ j.table = table

/-- Every selected column is read from its own table, and the condition of every join speaks of the
table before it on the path that the join is for. -/
structure ReadsOwnTables (base : String) (routes : List Route) (joins : List Join) : Prop where
  /-- The name of a selected column stands for the table of the column. -/
  selected : ∀ r ∈ routes, ∀ s, r.selected? = some s → Binds base joins s.source r.column.table
  /-- The right side of a condition stands for the table before. -/
  previous : ∀ l ∈ Leg.unbound [base] (routes.flatMap Route.legs),
    Binds base joins l.previous.name l.previous.table

/-- The first stop that wants a name gets it. -/
theorem binds_iff {base : String} {routes : List Route} {s : Stop} :
    Binds base (Join.unbound [base] (routes.flatMap Route.joins)) s.name s.table ↔
      ∃ t, (Stop.ofRoutes base routes).find? (·.name == s.name) = some t ∧
        t.table = s.table := by
  rw [Binds, Stop.ofRoutes]
  by_cases hb : s.name = base
  · rw [List.find?_cons_of_pos (by simp [hb])]
    constructor
    · rintro (⟨_, htable⟩ | ⟨j, hj, hname, _⟩)
      · exact ⟨_, rfl, htable.symm⟩
      · refine absurd ?_ (Join.name_not_mem_of_mem_unbound hj)
        exact List.mem_singleton.2 (hname.trans hb)
    · rintro ⟨t, ht, htable⟩
      obtain rfl := Option.some.inj ht
      exact .inl ⟨hb, htable.symm⟩
  · rw [List.find?_cons_of_neg (by simpa using fun he ↦ hb he.symm),
      Join.exists_mem_unbound_iff (by simpa using hb), ← Route.map_join_flatMap_legs]
    simp only [hb, false_and, false_or, List.find?_map, Option.map_eq_some_iff]
    constructor
    · rintro ⟨_, ⟨l, hl, rfl⟩, htable⟩
      exact ⟨l.stop, ⟨l, hl, rfl⟩, htable⟩
    · rintro ⟨_, ⟨l, hl, rfl⟩, htable⟩
      exact ⟨l.join, ⟨l, hl, rfl⟩, htable⟩

theorem binds_iff_not_captured {base : String} {routes : List Route} {s : Stop}
    (hs : s.name ∈ base :: (routes.flatMap Route.joins).map Join.name) :
    Binds base (Join.unbound [base] (routes.flatMap Route.joins)) s.name s.table ↔
      ¬ s.Captured (Stop.ofRoutes base routes) := by
  rw [binds_iff, Stop.Captured]
  have hnames : (Stop.ofRoutes base routes).map Stop.name =
      base :: (routes.flatMap Route.joins).map Join.name := by
    rw [Stop.ofRoutes, ← Route.map_join_flatMap_legs, List.map_cons, List.map_map, List.map_map]
    rfl
  obtain ⟨u, hu, hname⟩ := List.mem_map.1 (hnames ▸ hs)
  cases hfind : (Stop.ofRoutes base routes).find? (·.name == s.name) with
  | none => exact absurd (List.find?_eq_none.1 hfind u hu) (by simp [hname])
  | some t => simp

/-! ### Queries along given routes

Here nothing is known of the routes but that each join starts from a name that is bound and each
selected column has a name on its route.  Both sides of the equivalence go through the uses of names
one by one. -/

theorem readsOwnTables_ofRoutes_iff {base : String} {routes : List Route}
    (hjoins : ∀ r ∈ routes, Join.Rooted [base] r.joins)
    (hselected : ∀ r ∈ routes, ∀ s, r.selected? = some s →
      s.source ∈ base :: r.joins.map Join.name)
    (hlast : ∀ r ∈ routes, ∀ p, r.path = some p → p.last = r.column.table) :
    ReadsOwnTables base routes (Join.unbound [base] (routes.flatMap Route.joins)) ↔
      ∀ s, Stop.Used base routes s → ¬ s.Captured (Stop.ofRoutes base routes) := by
  have hrooted := Join.Rooted.flatMap hjoins
  -- a name that one route can read is bound in the whole query, so both kinds of use below are
  -- of bound names
  have hmem {r : Route} (hr : r ∈ routes) {n : String} (hn : n ∈ base :: r.joins.map Join.name) :
      n ∈ base :: (routes.flatMap Route.joins).map Join.name := by
    refine List.cons_subset_cons _ (List.map_subset _ fun j hj ↦ ?_) hn
    exact List.mem_flatMap.2 ⟨r, hr, hj⟩
  have hprevious {l : Leg} (hl : l ∈ routes.flatMap Route.legs) :
      l.previous.name ∈ base :: (routes.flatMap Route.joins).map Join.name := by
    have hj : l.join ∈ routes.flatMap Route.joins := by
      rw [← Route.map_join_flatMap_legs]
      exact List.mem_map_of_mem hl
    obtain ⟨before, after, heq⟩ := List.append_of_mem hj
    refine List.cons_subset_cons _ (List.map_subset _ fun k hk ↦ ?_)
      (hrooted.previousName_mem heq)
    exact heq ▸ List.mem_append_left _ hk
  constructor
  · intro h s hs
    cases hs with
    | @selected r p hr hp =>
      have hsel : r.selected? = some ⟨p.lastAlias, r.column.field⟩ := by
        rw [Route.selected?, hp]; rfl
      rw [← binds_iff_not_captured (hmem hr (hselected r hr _ hsel))]
      exact hlast r hr p hp ▸ h.selected r hr _ hsel
    | @previous l before after hlegs hbase hfirst =>
      have hl : l ∈ Leg.unbound [base] (routes.flatMap Route.legs) :=
        Leg.mem_unbound_iff.2 ⟨by simpa using hbase, before, after, hlegs, hfirst⟩
      rw [← binds_iff_not_captured (hprevious (hlegs ▸ by simp))]
      exact h.previous l hl
  · refine fun h ↦ ⟨fun r hr s hs ↦ ?_, fun l hl ↦ ?_⟩
    · have hsource := hmem hr (hselected r hr s hs)
      obtain ⟨p, hp, rfl⟩ := Option.map_eq_some_iff.1 hs
      rw [← hlast r hr p hp]
      exact (binds_iff_not_captured hsource).2 (h ⟨p.last, p.lastAlias⟩ (.selected hr hp))
    · obtain ⟨hbase, before, after, hlegs, hfirst⟩ := Leg.mem_unbound_iff.1 hl
      refine (binds_iff_not_captured (hprevious (hlegs ▸ by simp))).2 (h _ ?_)
      exact .previous hlegs (by simpa using hbase) hfirst

/-- **When a query reads every column from its own table**: exactly when no stop is captured whose
name the query uses. -/
theorem readsOwnTables_iff {c c' : Column} {cs : List Column} {tables : List Table}
    (h : c.table ∈ tables.map Table.name) :
    let routes := Route.all (ReferenceGraph.ofTables tables) c.table (c :: c' :: cs)
    ∃ selected joins, ofColumns? (c :: c' :: cs) tables = some (.joined selected c.table joins) ∧
      selected = routes.filterMap Route.selected? ∧
      joins = (Leg.unbound [c.table] (routes.flatMap Route.legs)).map Leg.join ∧
      (ReadsOwnTables c.table routes joins ↔
        ∀ s, Stop.Used c.table routes s → ¬ s.Captured (Stop.ofRoutes c.table routes)) := by
  intro routes
  refine ⟨_, _, ofColumns?_eq_some h, rfl, ?_, readsOwnTables_ofRoutes_iff
    (fun r hr ↦ Route.rooted_joins hr) (fun r hr s hs ↦ Route.source_mem hr hs) fun r hr p hp ↦ ?_⟩
  · rw [Leg.map_join_unbound, Route.map_join_flatMap_legs]
  · exact (Path.walk_of_find? ((Route.path_of_mem_all hr).symm.trans hp)).1

/-! ### A column that is read from another table

A repository belongs to a team and a team to a user, both through a field `owner_id`, so that the
team and the user want the same name. -/

/-- Chosen columns of those tables, one of each. -/
def ownedColumns : List Column := [⟨"repo", "name"⟩, ⟨"team", "name"⟩, ⟨"user", "name"⟩]

/-- Of the tables that belong to one another, the users are captured. -/
theorem readsOwnTables_iff_ownedTables :
    "repo" ∈ ownedTables.map Table.name ∧
      ∃ selected joins, ofColumns? ownedColumns ownedTables =
          some (.joined selected "repo" joins) ∧
        selected = (Route.all (ReferenceGraph.ofTables ownedTables) "repo"
          ownedColumns).filterMap Route.selected? ∧
        joins = (Leg.unbound ["repo"] ((Route.all (ReferenceGraph.ofTables ownedTables) "repo"
          ownedColumns).flatMap Route.legs)).map Leg.join ∧
        (ReadsOwnTables "repo" (Route.all (ReferenceGraph.ofTables ownedTables) "repo"
            ownedColumns) joins ↔
          ∀ s, Stop.Used "repo" (Route.all (ReferenceGraph.ofTables ownedTables) "repo"
              ownedColumns) s →
            ¬ s.Captured (Stop.ofRoutes "repo" (Route.all (ReferenceGraph.ofTables ownedTables)
              "repo" ownedColumns))) :=
  ⟨by decide, readsOwnTables_iff (by decide)⟩

theorem all_ownedTables :
    Route.all (ReferenceGraph.ofTables ownedTables) "repo" ownedColumns =
      [⟨⟨"repo", "name"⟩, some ⟨[], "repo"⟩⟩,
       ⟨⟨"team", "name"⟩, some ⟨[⟨"repo", "owner_id", "id", false⟩], "team"⟩⟩,
       ⟨⟨"user", "name"⟩,
        some ⟨[⟨"repo", "owner_id", "id", false⟩, ⟨"team", "owner_id", "id", false⟩],
          "user"⟩⟩] := by
  have hrepo : (ReferenceGraph.ofTables ownedTables).forwardHops ownedColumns "repo" =
      [(⟨"repo", "owner_id", "id", false⟩, "team")] := by decide +kernel
  have hteam : (ReferenceGraph.ofTables ownedTables).forwardHops ownedColumns "team" =
      [(⟨"team", "owner_id", "id", false⟩, "user")] := by decide +kernel
  have hnames : (ReferenceGraph.ofTables ownedTables).names = ["repo", "team", "user"] := by
    decide +kernel
  have hpath : Path.find? (ReferenceGraph.ofTables ownedTables) ownedColumns "repo" "repo" =
      some ⟨[], "repo"⟩ := if_pos rfl
  have hpath' : Path.find? (ReferenceGraph.ofTables ownedTables) ownedColumns "repo" "team" =
      some ⟨[⟨"repo", "owner_id", "id", false⟩], "team"⟩ := by
    simp [Path.find?, ReferenceGraph.forwardSearch, Search.depthFirst, Search.Trail.extend, hnames,
      hrepo]
  have hpath'' : Path.find? (ReferenceGraph.ofTables ownedTables) ownedColumns "repo" "user" =
      some ⟨[⟨"repo", "owner_id", "id", false⟩, ⟨"team", "owner_id", "id", false⟩], "user"⟩ := by
    simp [Path.find?, ReferenceGraph.forwardSearch, Search.depthFirst, Search.Trail.extend, hnames,
      hrepo, hteam]
  have hroutes : ownedColumns.map (fun c ↦ (⟨c, Path.find? (ReferenceGraph.ofTables ownedTables)
        ownedColumns "repo" c.table⟩ : Route)) =
      [⟨_, Path.find? _ ownedColumns "repo" "repo"⟩, ⟨_, Path.find? _ ownedColumns "repo" "team"⟩,
        ⟨_, Path.find? _ ownedColumns "repo" "user"⟩] := rfl
  rw [Route.all, hroutes, hpath, hpath', hpath'']
  simp [List.mergeSort, Route.length, Path.length]

/-- **A column may be read from another table**: the name of the user comes from the team. -/
theorem not_readsOwnTables_ownedTables :
    ofColumns? ownedColumns ownedTables =
        some (.joined [⟨"repo", "name"⟩, ⟨"owner", "name"⟩, ⟨"owner", "name"⟩] "repo"
          [⟨"team", "owner", "id", "repo", "owner_id"⟩]) ∧
      ¬ ReadsOwnTables "repo"
        (Route.all (ReferenceGraph.ofTables ownedTables) "repo" ownedColumns)
        [⟨"team", "owner", "id", "repo", "owner_id"⟩] := by
  constructor
  · rw [ownedColumns, ofColumns?_eq_some (by decide), ← ownedColumns, all_ownedTables]
    decide +kernel
  · intro h
    rw [all_ownedTables] at h
    have hb := h.selected _ (by simp only [List.mem_cons]; exact .inr (.inr (.inl rfl))) _ rfl
    simp only [Binds, List.mem_singleton] at hb
    rcases hb with ⟨hname, _⟩ | ⟨j, rfl, _, htable⟩
    · exact absurd hname (by decide +kernel)
    · exact absurd htable (by decide +kernel)

end Query

end ErDiagram
