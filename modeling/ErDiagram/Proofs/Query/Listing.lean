import ErDiagram.Proofs.Query.Scope
import ErDiagram.Proofs.Reference.Connected

/-!
# The selected columns of a query

A query lists the chosen columns whose tables are connected with the base, each as often as it was
chosen, and no others; those with fewer tables on their paths come first, and among those with
equally many the order of the choice is kept (`Query.lists_ofColumns?`).

The statement is about the text of a query, and what it says of the text is said apart from the
functions that write it:

* `Selected.line` is the line that an entry should have at its place in the list: a comma in front
  of all but the first.  A query is written with these lines (`Query.selectLines_eq_mapIdx`).
* `Column.SelectedAs` says which entry a column should have.  The name in front of its field comes
  from the last hop of the path alone, although the query computes it as the last of all the names
  that it gives on the way (`Path.lastAlias_eq`).
* `Column.steps` is what the entries should be sorted by, the number of tables on the path.

`IsStableSort` says of any two lists that one is the other, sorted so.  The query sorts all routes,
those without a path too, and leaves these out afterwards; that comes to the same, because leaving
items out of a list and of its stable sort gives a stable sort again (`IsStableSort.filter`).  Which
routes have a path is known from `ErDiagram.Proofs.Reference.Connected`: those to a table that the
base is connected with.
-/

set_option autoImplicit false

namespace ErDiagram

/-! ## Stable sorts

That a sort is stable is said here by filtering: of the items with any one key, the sorted list has
the same sublist as the list it was made from.  Stated like this it carries over to a part of the
items, and to other items with the same keys, without a word about positions. -/

section

variable {α β : Type} {key : α → ℕ} {xs ys : List α}

/-- A list with the items of another, sorted by a key, those with one key in the same order. -/
structure IsStableSort (key : α → ℕ) (xs ys : List α) : Prop where
  /-- The items are the same, each as often. -/
  perm : ys.Perm xs
  /-- Items with smaller keys come first. -/
  sorted : ys.Pairwise fun a b ↦ key a ≤ key b
  /-- Items with one key are in the same order. -/
  stable : ∀ k, ys.filter (key · == k) = xs.filter (key · == k)

theorem isStableSort_mergeSort (key : α → ℕ) (xs : List α) :
    IsStableSort key xs (xs.mergeSort fun a b ↦ decide (key a ≤ key b)) := by
  have htrans : ∀ a b c : α, decide (key a ≤ key b) = true → decide (key b ≤ key c) = true →
      decide (key a ≤ key c) = true := by
    simp only [decide_eq_true_eq]
    exact fun _ _ _ ↦ Nat.le_trans
  have htotal : ∀ a b : α, (decide (key a ≤ key b) || decide (key b ≤ key a)) = true := by
    simp only [Bool.or_eq_true, decide_eq_true_eq]
    exact fun a b ↦ Nat.le_total _ _
  have hperm := List.mergeSort_perm xs fun a b ↦ decide (key a ≤ key b)
  constructor
  case perm => exact hperm
  case sorted =>
    exact (List.pairwise_mergeSort htrans htotal xs).imp fun hab ↦ of_decide_eq_true hab
  case stable =>
    intro k
    -- items with one key are sorted as they stand, so they keep their order
    have hpairwise : (xs.filter (key · == k)).Pairwise fun a b ↦ decide (key a ≤ key b) = true := by
      refine List.pairwise_of_forall_mem_list fun a ha b hb ↦ decide_eq_true ?_
      have ha := (List.mem_filter.1 ha).2
      have hb := (List.mem_filter.1 hb).2
      rw [beq_iff_eq] at ha hb
      exact (ha.trans hb.symm).le
    have hsub := (List.sublist_mergeSort htrans htotal hpairwise List.filter_sublist).filter
      (key · == k)
    rw [List.filter_filter] at hsub
    simp only [Bool.and_self] at hsub
    exact (hsub.eq_of_length (hperm.filter _).length_eq.symm).symm

theorem IsStableSort.filter (h : IsStableSort key xs ys) (p : α → Bool) :
    IsStableSort key (xs.filter p) (ys.filter p) where
  perm := h.perm.filter p
  sorted := h.sorted.filter p
  stable k := by rw [List.filter_comm, h.stable k, List.filter_comm]

theorem IsStableSort.map {key' : β → ℕ} {f : α → β} (h : IsStableSort key xs ys)
    (hkey : ∀ a ∈ xs, key' (f a) = key a) : IsStableSort key' (xs.map f) (ys.map f) := by
  have hkey' : ∀ a ∈ ys, key' (f a) = key a := fun a ha ↦ hkey a (h.perm.mem_iff.1 ha)
  have hfilter {zs : List α} (hzs : ∀ a ∈ zs, key' (f a) = key a) (k : ℕ) :
      (zs.map f).filter (key' · == k) = (zs.filter (key · == k)).map f := by
    rw [List.filter_map]
    refine congrArg (List.map f) (List.filter_congr fun a ha ↦ ?_)
    rw [Function.comp_apply, hzs a ha]
  constructor
  case perm => exact h.perm.map f
  case sorted =>
    refine List.pairwise_map.2 (h.sorted.imp_of_mem fun {a b} ha hb hab ↦ ?_)
    rwa [hkey' a ha, hkey' b hb]
  case stable =>
    intro k
    rw [hfilter hkey', hfilter hkey, h.stable k]

end

/-! ## The entry of a column

What the text of a query should say of a column: the name of the table it is taken from, its field,
and the line these two make at their place in the list. -/

open Table ReferenceGraph

/-- The line of an entry at a place of the list, the first place being zero. -/
def Selected.line (i : ℕ) (s : Selected) : String :=
  (if i = 0 then "  " else ", ") ++ s.source ++ "." ++ s.field

/-- The entries of a query are written on the lines for their places. -/
theorem Query.selectLines_eq_mapIdx (ss : List Selected) :
    selectLines ss = ss.mapIdx Selected.line := by
  cases ss with
  | nil => rfl
  | cons s ss =>
    have htail : ss.map (fun s ↦ ", " ++ s.source ++ "." ++ s.field) =
        ss.mapIdx fun i ↦ Selected.line (i + 1) :=
      List.ext_getElem (by simp) fun i _ _ ↦ by simp [Selected.line]
    rw [selectLines, htail, List.mapIdx_cons]
    rfl

namespace Path

/-- The names given on the way end with the one that the last hop gives. -/
theorem getLast_joinsFrom (name last : String) (hops : List Hop) :
    (name :: (joinsFrom name last hops).map Join.name).getLast (List.cons_ne_nil _ _) =
      hops.getLast?.elim name (·.nextName last) := by
  induction hops generalizing name with
  | nil => rfl
  | cons h hops ih =>
    rw [joinsFrom, List.map_cons, List.getLast_cons (List.cons_ne_nil _ _), ih]
    cases hops with
    | nil => rfl
    | cons k hops => simp [List.getLast?_cons]

theorem lastAlias_eq (p : Path) :
    p.lastAlias = p.hops.getLast?.elim p.last (·.nextName p.last) := by
  refine (getLast_joinsFrom _ _ _).trans ?_
  cases h : p.hops with
  | nil => rfl
  | cons k hops => simp [List.getLast?_cons]

end Path

namespace Column

variable (tables : List Table) (columns : List Column) (base : String) (c : Column)

/-- The number of tables on the path from a base to a column, the base among them; zero if there is
no path. -/
def steps : ℕ :=
  ((Path.find? (ofTables tables) columns base c.table).map (·.hops.length + 1)).getD 0

/-- An entry of a query selects the field of a column from the last table of the path to it: by the
name that the last hop leads to, or by the name of the table if the path has no hops. -/
def SelectedAs (s : Selected) : Prop :=
  ∃ p, Path.find? (ofTables tables) columns base c.table = some p ∧
    s.source = p.hops.getLast?.elim c.table (·.nextName c.table) ∧ s.field = c.field

/-- The route from a base to a column. -/
def route : Route := ⟨c, Path.find? (ofTables tables) columns base c.table⟩

theorem length_route : (c.route tables columns base).length = c.steps tables columns base := rfl

end Column

/-! ## Routes with a path

The routes of a query are those of all chosen columns, sorted.  Those with a path are the ones that
give an entry, and they are the routes of the columns that are connected with the base. -/

namespace Route

variable {tables : List Table} {columns : List Column} {base : String} {routes : List Route}

/-- Every route with a path adds its column to the query, and no other route does. -/
theorem forall₂_selected (h : ∀ r ∈ routes,
      r.path = Path.find? (ofTables tables) columns base r.column.table) :
    List.Forall₂ (Column.SelectedAs tables columns base)
      ((routes.filter (·.path.isSome)).map column) (routes.filterMap selected?) := by
  induction routes with
  | nil => exact .nil
  | cons r routes ih =>
    obtain ⟨hr, hroutes⟩ := List.forall_mem_cons.1 h
    cases hp : r.path with
    | none =>
      rw [List.filter_cons_of_neg (by simp [hp]),
        List.filterMap_cons_none (by simp [selected?, hp])]
      exact ih hroutes
    | some p =>
      have hfind := hr.symm.trans hp
      have hsource := p.lastAlias_eq
      rw [(Path.walk_of_find? hfind).1] at hsource
      rw [List.filter_cons_of_pos (by simp [hp]), List.map_cons,
        List.filterMap_cons_some (by rw [selected?, hp]; rfl)]
      exact .cons ⟨p, hfind, hsource, rfl⟩ (ih hroutes)

theorem filter_connected (columns' : List Column) (hbase : base ∈ tables.map Table.name) :
    ((columns'.map (Column.route tables columns base)).filter (·.path.isSome)).map column =
      columns'.filter (Connected tables base ·.table) := by
  rw [List.filter_map, List.map_map]
  refine (List.map_id _).trans (List.filter_congr fun c _ ↦ Bool.eq_iff_iff.2 ?_)
  exact (Path.isSome_find?_iff_connected columns hbase).trans decide_eq_true_iff.symm

/-- The columns of the routes with a path, as the routes are sorted. -/
theorem isStableSort_all (hbase : base ∈ tables.map Table.name) :
    IsStableSort (Column.steps tables columns base)
      (columns.filter (Connected tables base ·.table))
      (((all (ofTables tables) base columns).filter (·.path.isSome)).map column) := by
  have hsteps : ∀ r ∈ (columns.map (Column.route tables columns base)).filter
      (·.path.isSome), r.column.steps tables columns base = r.length := by
    intro r hr
    obtain ⟨c, -, rfl⟩ := List.mem_map.1 (List.mem_filter.1 hr).1
    exact (c.length_route tables columns base).symm
  rw [← filter_connected columns hbase]
  exact ((isStableSort_mergeSort length _).filter _).map hsteps

end Route

/-! ## The select list

A query is written with one line for each entry, and the entries are those of the routes with a
path, in the order of the routes. -/

namespace Query

/-- **A query lists the chosen columns that can be reached**: one entry for each time a column was
chosen whose table is connected with the base, and none for the others, each on a line of the text
of its own; the entries are sorted by the number of steps of their paths, and those with equally
many steps stand in the order of the choice. -/
theorem lists_ofColumns? {c c' : Column} {cs : List Column} {tables : List Table}
    (h : c.table ∈ tables.map Table.name) :
    let columns := c :: c' :: cs
    ∃ selected joins listed, ofColumns? columns tables = some (.joined selected c.table joins) ∧
      (joined selected c.table joins).text = "\n".intercalate
        ("select" :: selected.mapIdx Selected.line ++
          ("from " ++ c.table) :: (joins.map Join.line).map JoinLine.text) ∧
      IsStableSort (Column.steps tables columns c.table)
        (columns.filter (Connected tables c.table ·.table)) listed ∧
      List.Forall₂ (Column.SelectedAs tables columns c.table) listed selected :=
  ⟨_, _, _, ofColumns?_eq_some h, selectLines_eq_mapIdx _ ▸ text_joined _ _ _,
    Route.isStableSort_all h, Route.forall₂_selected fun _ hr ↦ Route.path_of_mem_all hr⟩

/-- The thread with tags that no table refers to. -/
def taggedThread : List Table := thread ++ [{ name := "tag", fields := [{ name := "name" }] }]

/-- The name of the user is to be listed twice, behind the title of the post, and that of the tag
not at all. -/
theorem lists_ofColumns?_taggedThread :
    let columns : List Column := [⟨"comment", "id"⟩, ⟨"user", "name"⟩, ⟨"tag", "name"⟩,
      ⟨"post", "title"⟩, ⟨"user", "name"⟩]
    "comment" ∈ taggedThread.map Table.name ∧
      columns.filter (Connected taggedThread "comment" ·.table) =
        [⟨"comment", "id"⟩, ⟨"user", "name"⟩, ⟨"post", "title"⟩, ⟨"user", "name"⟩] ∧
      columns.map (Column.steps taggedThread columns "comment") = [1, 3, 0, 2, 3] ∧
      ∃ selected joins listed,
        ofColumns? columns taggedThread = some (.joined selected "comment" joins) ∧
        (joined selected "comment" joins).text = "\n".intercalate
          ("select" :: selected.mapIdx Selected.line ++
            ("from " ++ "comment") :: (joins.map Join.line).map JoinLine.text) ∧
        IsStableSort (Column.steps taggedThread columns "comment")
          (columns.filter (Connected taggedThread "comment" ·.table)) listed ∧
        List.Forall₂ (Column.SelectedAs taggedThread columns "comment") listed selected :=
  ⟨by decide, by decide +kernel, by decide +kernel, lists_ofColumns? (by decide)⟩

end Query

end ErDiagram
