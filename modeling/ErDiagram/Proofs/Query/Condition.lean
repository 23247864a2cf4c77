import ErDiagram.Proofs.Query.Capture
import ErDiagram.Proofs.Reference.ForeignKeys

/-!
# What the conditions of a query say

The condition of a join equates a field of the joined table with a field of the table before it on
the path.  One of the two fields is a foreign key, the other what it refers to: for a hop forwards
the foreign key belongs to the table before, for a hop in reverse to the joined table.

`Path.Follows` says that each hop of a path is a move of the table it starts from to the table where
the next one starts.  The legs of such a path stand where their hops stand (`Leg.At`), so each join
of a query states the foreign key that the hop at its position follows
(`Query.joins_state_foreignKeys`).

The two fields of a condition come from one hop, but the names in front of them come from two
neighbouring places on the path, and the side on which either stands depends on the direction of the
hop.  So the leg of a hop is first described as a whole (`Hop.leg`), with both its tables, both its
names and both its fields; then the tables and the names are found at their positions in those of
the path, each by one induction on the hops that goes in step with the one for the legs.  What a hop
says of the foreign key is known from `ErDiagram.Proofs.Reference.ForeignKeys`.
-/

set_option autoImplicit false

namespace ErDiagram

open Search Table

/-! ## Legs and their positions

The legs of a path follow the recursion of its joins.  They are therefore looked up together: the
leg at a position with the hop there (`exists_hop_of_getElem?_legsFrom`), with the two tables
(`tables_of_getElem?_legsFrom`) and with the two names (`names_of_getElem?_legsFrom`). -/

/-- The leg of a hop that starts from a table with a given name and leads to another table. -/
def Hop.leg (h : Hop) (previousName next : String) : Leg where
  previousTable := h.table
  join :=
    { table := next
      name := h.nextName next
      field := if h.reverse then h.field else h.target
      previousName
      previousField := if h.reverse then h.target else h.field }

/-- A leg is the one for a position of a path: its line joins the table there to the table before,
and calls either by the name that it has on the path. -/
structure Leg.At (l : Leg) (p : Path) (i : Nat) : Prop where
  /-- The table before. -/
  previousTable : p.tables[i]? = some l.previousTable
  /-- The joined table. -/
  table : p.tables[i + 1]? = some l.join.line.table
  /-- The name of the table before. -/
  right : p.aliases[i]? = some l.join.line.right.source
  /-- The name of the joined table. -/
  left : p.aliases[i + 1]? = some l.join.line.left.source

namespace Path

variable {moves : String → List (Hop × String)} {last name : String} {hops : List Hop} {i : Nat}
  {l : Leg}

/-- The legs of some hops that start from a table with a given name. -/
def legsFrom (name last : String) : List Hop → List Leg
  | [] => []
  | h :: hops =>
    h.leg name (start hops last) :: legsFrom (h.nextName (start hops last)) last hops

theorem legs_eq (p : Path) : p.legs = legsFrom (start p.hops p.last) p.last p.hops := by
  have aux (last : String) (hops : List Hop) (name : String) :
      hops.zipWith (fun h j ↦ (⟨h.table, j⟩ : Leg)) (joinsFrom name last hops) =
        legsFrom name last hops := by
    induction hops generalizing name with
    | nil => rfl
    | cons h hops ih =>
      rw [joinsFrom, List.zipWith_cons_cons, ih]
      rfl
  exact aux _ _ _

/-- The leg at a position is that of the hop there, which leads to the joined table. -/
theorem exists_hop_of_getElem?_legsFrom (hfollows : Follows moves last hops)
    (hl : (legsFrom name last hops)[i]? = some l) :
    ∃ h, hops[i]? = some h ∧ (h, l.join.table) ∈ moves h.table ∧
      l = h.leg l.join.previousName l.join.table := by
  induction hops generalizing name i with
  | nil => cases hl
  | cons h hops ih =>
    obtain ⟨hmove, hfollows⟩ := hfollows
    cases i with
    | zero =>
      obtain rfl := Option.some.inj hl
      exact ⟨h, rfl, hmove, rfl⟩
    | succ i => exact ih hfollows hl

theorem tables_of_getElem?_legsFrom (hl : (legsFrom name last hops)[i]? = some l) :
    (hops.map Hop.table ++ [last])[i]? = some l.previousTable ∧
      (hops.map Hop.table ++ [last])[i + 1]? = some l.join.table := by
  induction hops generalizing name i with
  | nil => cases hl
  | cons h hops ih =>
    cases i with
    | zero =>
      obtain rfl := Option.some.inj hl
      exact ⟨rfl, getElem?_zero_tables hops last⟩
    | succ i => exact ih hl

theorem names_of_getElem?_legsFrom (hl : (legsFrom name last hops)[i]? = some l) :
    (name :: (legsFrom name last hops).map (·.join.name))[i]? = some l.join.previousName ∧
      (name :: (legsFrom name last hops).map (·.join.name))[i + 1]? = some l.join.name := by
  induction hops generalizing name i with
  | nil => cases hl
  | cons h hops ih =>
    cases i with
    | zero =>
      obtain rfl := Option.some.inj hl
      exact ⟨rfl, rfl⟩
    | succ i => exact ih hl

theorem at_of_getElem?_legs {p : Path} (hl : p.legs[i]? = some l) : l.At p i := by
  have haliases : p.aliases = start p.hops p.last :: p.legs.map (·.join.name) := by
    rw [aliases, ← map_join_legs, List.map_map]
    rfl
  rw [legs_eq] at hl haliases
  obtain ⟨hprevious, htable⟩ := tables_of_getElem?_legsFrom hl
  obtain ⟨hright, hleft⟩ := names_of_getElem?_legsFrom hl
  exact ⟨hprevious, htable, haliases ▸ hright, haliases ▸ hleft⟩

end Path

theorem Route.exists_path_of_mem_legs {r : Route} {l : Leg} (h : l ∈ r.legs) :
    ∃ p, r.path = some p ∧ l ∈ p.legs := by
  rw [legs] at h
  cases hp : r.path with
  | none =>
    rw [hp] at h
    cases h
  | some p =>
    rw [hp] at h
    exact ⟨p, rfl, h⟩

/-! ## The conditions of a query

A hop forwards was found among the foreign keys of the table it starts from, a hop in reverse among
those of the table it leads to.  The condition of its leg states that foreign key in either case,
because the fields change sides together with the tables. -/

/-- The condition of a leg states a foreign key: one of the table before, or in reverse one of the
joined table. -/
def Leg.StatesForeignKey (tables : List Table) (l : Leg) (reverse : Bool) : Prop :=
  if reverse then
    Declares tables l.join.line.table l.join.line.left.field l.previousTable l.join.line.right.field
  else
    Declares tables l.previousTable l.join.line.right.field l.join.line.table l.join.line.left.field

/-- The leg of a hop states the foreign key that the hop follows. -/
theorem Leg.statesForeignKey_of_hop {tables : List Table} {columns : List Column} {l : Leg}
    {h : Hop} (hm : (h, l.join.table) ∈ (ReferenceGraph.ofTables tables).hops columns h.table)
    (hl : l = h.leg l.join.previousName l.join.table) : l.StatesForeignKey tables h.reverse := by
  have htable : l.previousTable = h.table := congrArg Leg.previousTable hl
  have hfield : l.join.field = if h.reverse then h.field else h.target :=
    congrArg (·.join.field) hl
  have hprevious : l.join.previousField = if h.reverse then h.target else h.field :=
    congrArg (·.join.previousField) hl
  simp only [StatesForeignKey, Join.line]
  rw [htable, hfield, hprevious]
  rcases List.mem_append.1 hm with hf | hr
  · obtain ⟨hreverse, hdeclares⟩ := ReferenceGraph.declares_of_mem_forwardHops hf
    simpa [hreverse] using hdeclares
  · obtain ⟨hreverse, hdeclares⟩ := ReferenceGraph.declares_of_mem_reverseHops hr
    simpa [hreverse] using hdeclares

namespace Query

/-! ### All joins of a query

The joins that are taken are among the legs of the routes, and each leg stands at a position of the
path of its route, from where the tables, the names and the hop are read. -/

/-- A query with joins takes the routes from a declared table. -/
theorem of_ofColumns?_eq_joined {columns : List Column} {tables : List Table}
    {selected : List Selected} {base : String} {joins : List Join}
    (h : ofColumns? columns tables = some (.joined selected base joins)) :
    base ∈ tables.map Table.name ∧
      selected = (Route.all (ReferenceGraph.ofTables tables) base columns).filterMap
        Route.selected? ∧
      joins = Join.unbound [base]
        ((Route.all (ReferenceGraph.ofTables tables) base columns).flatMap Route.joins) := by
  rcases columns with _ | ⟨c, _ | ⟨c', cs⟩⟩
  · cases h
  · cases h
  · simp only [ofColumns?] at h
    split at h
    · next hc =>
      cases h
      exact ⟨ReferenceGraph.mem_names_ofTables.1 hc, rfl, rfl⟩
    · cases h

/-- **The condition of every join states a declared foreign key**, the right way round.  The joins
of a query are those of the legs that it takes, each the leg for a position of the path of a route;
for a hop forwards the first declaration of the table before has the foreign key, and the other side
of the condition is the field that it refers to; for a hop in reverse the first declaration of the
joined table has it. -/
theorem joins_state_foreignKeys {columns : List Column} {tables : List Table}
    {selected : List Selected} {base : String} {joins : List Join}
    (h : ofColumns? columns tables = some (.joined selected base joins)) :
    let routes := Route.all (ReferenceGraph.ofTables tables) base columns
    let legs := Leg.unbound [base] (routes.flatMap Route.legs)
    joins = legs.map Leg.join ∧
      (joined selected base joins).text = "\n".intercalate
        ("select" :: selectLines selected ++ ("from " ++ base) :: legs.map (·.join.line.text)) ∧
      ∀ l ∈ legs, ∃ r ∈ routes, ∃ p i hop, r.path = some p ∧ p.hops[i]? = some hop ∧
        l.At p i ∧ l.StatesForeignKey tables hop.reverse := by
  intro routes legs
  obtain ⟨-, -, hjoins⟩ := of_ofColumns?_eq_joined h
  have hlegs : joins = legs.map Leg.join := by
    rw [hjoins, Leg.map_join_unbound, Route.map_join_flatMap_legs]
  refine ⟨hlegs, ?_, fun l hl ↦ ?_⟩
  · rw [text_joined, hlegs, List.map_map, List.map_map]
    rfl
  · -- a leg of the query is one of some route, so it stands for a hop of that route's path
    obtain ⟨-, before, after, hall, -⟩ := Leg.mem_unbound_iff.1 hl
    have hmem : l ∈ routes.flatMap Route.legs := hall ▸ List.mem_append_right _ List.mem_cons_self
    obtain ⟨r, hr, hlr⟩ := List.mem_flatMap.1 hmem
    obtain ⟨p, hp, hlp⟩ := Route.exists_path_of_mem_legs hlr
    obtain ⟨i, hi⟩ := List.getElem?_of_mem hlp
    have hfollows := Path.follows_of_find? ((Route.path_of_mem_all hr).symm.trans hp)
    obtain ⟨hop, hhop, hmove, heq⟩ :=
      Path.exists_hop_of_getElem?_legsFrom hfollows (p.legs_eq ▸ hi)
    exact ⟨r, hr, p, i, hop, hp, hhop, Path.at_of_getElem?_legs hi,
      Leg.statesForeignKey_of_hop hmove heq⟩

/-- Chosen columns of posts, their authors and the comments on them. -/
def threadColumns : List Column := [⟨"post", "author_id"⟩, ⟨"user", "id"⟩, ⟨"comment", "post_id"⟩]

theorem ofColumns?_thread : ofColumns? threadColumns thread =
    some (.joined [⟨"post", "author_id"⟩, ⟨"author", "id"⟩, ⟨"comment", "post_id"⟩] "post"
      [⟨"user", "author", "id", "post", "author_id"⟩,
       ⟨"comment", "comment", "post_id", "post", "id"⟩]) := by
  have hpost : Path.find? (ReferenceGraph.ofTables thread) threadColumns "post" "post" =
      some ⟨[], "post"⟩ := by decide +kernel
  have huser : Path.find? (ReferenceGraph.ofTables thread) threadColumns "post" "user" =
      some ⟨[⟨"post", "author_id", "id", false⟩], "user"⟩ := by decide +kernel
  have hcomment : Path.find? (ReferenceGraph.ofTables thread) threadColumns "post" "comment" =
      some ⟨[⟨"post", "post_id", "id", true⟩], "comment"⟩ := by decide +kernel
  have hroutes : threadColumns.map (fun c ↦ (⟨c, Path.find? (ReferenceGraph.ofTables thread)
        threadColumns "post" c.table⟩ : Route)) =
      [⟨_, Path.find? _ threadColumns "post" "post"⟩, ⟨_, Path.find? _ threadColumns "post" "user"⟩,
        ⟨_, Path.find? _ threadColumns "post" "comment"⟩] := rfl
  rw [threadColumns, ofColumns?_eq_some (by decide), ← threadColumns, Route.all, hroutes, hpost,
    huser, hcomment, List.mergeSort_of_pairwise (by decide)]
  decide +kernel

/-- The post has the foreign key to its author, and the comment the one to the post. -/
theorem joins_state_foreignKeys_thread :
    let joins : List Join := [⟨"user", "author", "id", "post", "author_id"⟩,
      ⟨"comment", "comment", "post_id", "post", "id"⟩]
    let selected : List Selected :=
      [⟨"post", "author_id"⟩, ⟨"author", "id"⟩, ⟨"comment", "post_id"⟩]
    let routes := Route.all (ReferenceGraph.ofTables thread) "post" threadColumns
    let legs := Leg.unbound ["post"] (routes.flatMap Route.legs)
    ofColumns? threadColumns thread = some (.joined selected "post" joins) ∧
      joins = legs.map Leg.join ∧
      (joined selected "post" joins).text = "\n".intercalate
        ("select" :: selectLines selected ++ ("from " ++ "post") :: legs.map (·.join.line.text)) ∧
      ∀ l ∈ legs, ∃ r ∈ routes, ∃ p i hop, r.path = some p ∧ p.hops[i]? = some hop ∧
        l.At p i ∧ l.StatesForeignKey thread hop.reverse :=
  ⟨ofColumns?_thread, joins_state_foreignKeys ofColumns?_thread⟩

end Query

end ErDiagram
