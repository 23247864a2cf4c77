import Mathlib.Data.List.Induction
import ErDiagram.Proofs.Dictionary
import ErDiagram.Proofs.Reference.Sound

/-!
# Both directions of the references, filled in by one pass

The graph of the references is asked in both directions: which tables a table refers to, and which
refer to it.  An index keeps an answer for each direction (`ReferenceIndex`), and one pass over the
fields of the tables fills in both, one reference after the other (`ReferenceIndex.fill`).

The invariant is `ReferenceIndex.IsIndexOf`: what the index holds is what the graph of the tables
read so far says, where of the table that is being read only the fields so far count.  It is kept by
each field (`IsIndexOf.enterField`), therefore by each table (`IsIndexOf.enterTable`), and holds of
the index that is filled in (`isIndexOf_fill`).

The main statement is `ReferenceGraph.ofTables_transpose`: the two directions are the transposes of
each other, whichever tables are declared.

The pass and the graph go about it differently.  The graph takes the first declarations and then
answers each question by going through all foreign keys there are; the pass keeps dictionaries, in
which an entry is begun when its key first comes up and is added to afterwards.  The order of an
answer is therefore decided by what came first, and that is the same for both: of the groups of a
table by the first field for each target, of the tables that refer to one by their declaration.

A look-up in the pass can fail, since a table is listed as referring to another in one dictionary
and has its foreign keys in the other.  That it never does is part of what is shown
(`IsIndexOf.incoming?_eq`).
-/

set_option autoImplicit false

namespace ErDiagram

open Dictionary

/-! ## Tables that are declared last

How the graph changes if one more table is declared behind all others.  If its name is taken nothing
changes; if it is new, its foreign keys are added to those there were, and its name to the lists of
tables that refer to its targets. -/

namespace Table

variable {tables : List Table} {t : Table}

theorem firstDeclarations_concat (tables : List Table) (t : Table) :
    firstDeclarations (tables ++ [t]) =
      if t.name ∈ tables.map Table.name then firstDeclarations tables
      else firstDeclarations tables ++ [t] := by
  induction tables with
  | nil => simp [firstDeclarations]
  | cons u tables ih =>
    rw [List.cons_append, firstDeclarations, ih, firstDeclarations]
    by_cases hmem : t.name ∈ tables.map Table.name
    · simp [hmem]
    · rw [if_neg hmem]
      by_cases hname : t.name = u.name
      · simp [hname]
      · simp [hmem, hname]

theorem foreignKeys_mk_concat (name : String) (fields : List Field) (f : Field) :
    foreignKeys ⟨name, fields ++ [f]⟩ =
      foreignKeys ⟨name, fields⟩ ++ (f.reference.map (⟨f.name, ·⟩)).toList := by
  cases hf : f.reference with
  | none => simp [foreignKeys, hf]
  | some r => simp [foreignKeys, hf]

/-- A table whose name is new is found by its name, and does not hide another. -/
theorem find?_concat (h : t.name ∉ tables.map Table.name) (name : String) :
    find? (tables ++ [t]) name = if name = t.name then some t else find? tables name := by
  rw [find?, List.find?_append, ← find?]
  by_cases hname : name = t.name
  · rw [if_pos hname, find?_eq_none_iff.2 (hname ▸ h), Option.none_or, hname]
    exact List.find?_cons_of_pos (by simp)
  · rw [if_neg hname, List.find?_cons_of_neg (by simpa using Ne.symm hname), List.find?_nil,
      Option.or_none]

end Table

namespace ReferenceGraph

open Table

variable {tables : List Table} {t : Table}

theorem ofTables_concat_of_mem (h : t.name ∈ tables.map Table.name) :
    ofTables (tables ++ [t]) = ofTables tables := by
  simp only [ofTables, firstDeclarations_concat, if_pos h]

theorem tables_concat (h : t.name ∉ tables.map Table.name) :
    (ofTables (tables ++ [t])).tables = (ofTables tables).tables ++ [t] := by
  simp only [ofTables, firstDeclarations_concat, if_neg h]

/-- The declared tables stand in the order of their first declarations. -/
theorem names_ofTables (tables : List Table) :
    (ofTables tables).names = (tables.map Table.name).eraseDups := by
  induction tables using List.reverseRecOn with
  | nil => rfl
  | append_singleton tables t ih =>
    rw [List.map_append, List.map_singleton, eraseDups_concat]
    by_cases h : t.name ∈ tables.map Table.name
    · rw [if_pos h, ofTables_concat_of_mem h, ih]
    · rw [if_neg h, names, tables_concat h, List.map_append, ← names, ih, List.map_singleton]

theorem foreignKeys_concat (h : t.name ∉ tables.map Table.name) (source : String) :
    (ofTables (tables ++ [t])).foreignKeys source =
      if source = t.name then t.foreignKeys else (ofTables tables).foreignKeys source := by
  rw [foreignKeys_ofTables, find?_concat h, foreignKeys_ofTables]
  split <;> rfl

theorem referencedBy_concat (h : t.name ∉ tables.map Table.name) (target : String) :
    (ofTables (tables ++ [t])).referencedBy target = (ofTables tables).referencedBy target ++
      if t.foreignKeys.any (·.reference.table == target) then [t.name] else [] := by
  rw [referencedBy, tables_concat h, List.filter_append, List.map_append, ← referencedBy,
    List.filter_singleton]
  cases t.foreignKeys.any (·.reference.table == target) <;> rfl

theorem mem_referencedBy_iff {source target : String} :
    source ∈ (ofTables tables).referencedBy target ↔
      target ∈ ((ofTables tables).foreignKeys source).map (·.reference.table) := by
  rw [mem_referencedBy_ofTables, ← exists_mem_foreignKeys_iff, List.mem_map]

/-- The tables that refer to a table stand in the order of declaration. -/
theorem referencedBy_sublist (g : ReferenceGraph) (target : String) :
    (g.referencedBy target).Sublist g.names :=
  List.filter_sublist.map _

end ReferenceGraph

/-! ## Groups of foreign keys

Grouping by filtering, as the graph does it, and grouping by adding to an entry, as the pass does
it, come to the same for a list with one more foreign key at its end. -/

namespace ForeignKey

/-- Foreign keys in groups, one for each table that they refer to. -/
def group (keys : List ForeignKey) : List (String × List ForeignKey) :=
  (keys.map (·.reference.table)).eraseDups.map fun t ↦ (t, keys.filter (·.reference.table == t))

/-- A foreign key joins the group of its target, or begins one. -/
theorem alter_group (keys : List ForeignKey) (k : ForeignKey) :
    alter k.reference.table (· ++ [k]) (group keys) = group (keys ++ [k]) := by
  have hnew : k.reference.table ∉ (keys.map (·.reference.table)).eraseDups →
      keys.filter (·.reference.table == k.reference.table) = [] := by
    intro h
    refine List.filter_eq_nil_iff.2 fun k' hk' heq ↦ h (List.mem_eraseDups.2 ?_)
    rw [← eq_of_beq heq]
    exact List.mem_map_of_mem hk'
  rw [group, alter_map (nodup_eraseDups _) hnew, group, List.map_append, List.map_singleton,
    eraseDups_concat]
  simp only [List.mem_eraseDups]
  refine List.map_congr_left fun t _ ↦ congrArg _ ?_
  rw [List.filter_append]
  by_cases ht : t = k.reference.table
  · rw [if_pos ht, ht, List.filter_cons_of_pos (by simp), List.filter_nil]
  · rw [if_neg ht, List.filter_cons_of_neg (by simpa using Ne.symm ht), List.filter_nil,
      List.append_nil]

theorem lookup_group {keys : List ForeignKey} {target : String}
    (h : target ∈ keys.map (·.reference.table)) :
    (group keys).lookup target = some (keys.filter (·.reference.table == target)) :=
  List.lookup_graph _ (List.mem_eraseDups.2 h)

end ForeignKey

/-! ## The index

The two dictionaries, what it means to enter a field and a table in them, and the questions that
they answer. -/

/-- The references of tables, by the table that refers and by the one referred to. -/
structure ReferenceIndex where
  /-- The tables that have been declared. -/
  tables : List Table := []
  /-- The foreign keys of each table, by the table they refer to. -/
  edges : List (String × List (String × List ForeignKey)) := []
  /-- The tables that refer to each table. -/
  sources : List (String × List String) := []

namespace ReferenceIndex

open Table ReferenceGraph ForeignKey

/-! ### Entering fields and tables

Each step changes the entries of one key in either dictionary and leaves all others alone. -/

/-- An index with a field of a table entered: in both dictionaries, if it refers to a table. -/
def enterField (source : String) (i : ReferenceIndex) (f : Field) : ReferenceIndex :=
  match f.reference with
  | none => i
  | some r => { i with
      edges := alter source (alter r.table (· ++ [⟨f.name, r⟩])) i.edges
      sources := alter r.table (fun ss ↦ if source ∈ ss then ss else ss ++ [source]) i.sources }

/-- An index with a table entered, field by field; it stays as it is if the name is declared. -/
def enterTable (i : ReferenceIndex) (t : Table) : ReferenceIndex :=
  if t.name ∈ i.tables.map Table.name then i
  else t.fields.foldl (enterField t.name)
    { i with tables := i.tables ++ [t], edges := alter t.name id i.edges }

/-- The index of a list of tables. -/
def fill (tables : List Table) : ReferenceIndex := tables.foldl enterTable {}

/-- The foreign keys of a table, grouped by the table they refer to. -/
def outgoing (i : ReferenceIndex) (source : String) : List (String × List ForeignKey) :=
  entry i.edges source

/-- The tables that refer to a table. -/
def referencedBy (i : ReferenceIndex) (target : String) : List String := entry i.sources target

/-- The tables that refer to a table, each with its foreign keys to it.  There is no result if one
of them has no foreign keys in the index, or none to that table. -/
def incoming? (i : ReferenceIndex) (target : String) :
    Option (List (String × List ForeignKey)) :=
  (i.referencedBy target).mapM fun source ↦ do
    let targets ← i.edges.lookup source
    let keys ← targets.lookup target
    return (source, keys)

variable {i : ReferenceIndex} {tables : List Table} {t : Table} {source : String}
  {fields : List Field}

/-! ### What an index is to hold

The invariant of the pass.  It compares the dictionaries key by key with what the graph computes by
filtering, so the order in which keys were entered is left open. -/

/-- An index holds what the graph of some tables says, in both directions. -/
structure IsIndexOf (i : ReferenceIndex) (tables : List Table) : Prop where
  /-- The same tables are declared. -/
  names : i.tables.map Table.name = (ofTables tables).names
  /-- The declared tables, and no others, have foreign keys, if only an empty list of them. -/
  edges (source : String) : i.edges.lookup source =
    if source ∈ (ofTables tables).names then
      some (group ((ofTables tables).foreignKeys source))
    else none
  /-- The same tables refer to a table. -/
  sources (target : String) :
    i.referencedBy target = (ofTables tables).referencedBy target

/-! ### One field and one table

The table that is being read counts as the last of the tables so far, with those of its fields that
have been entered.  With that a single notion covers the state between two tables and the state
between two fields. -/

/-- What an index holds of tables of which the last has a new name. -/
theorem isIndexOf_concat_iff (ht : t.name ∉ tables.map Table.name) :
    i.IsIndexOf (tables ++ [t]) ↔
      i.tables.map Table.name = (ofTables tables).names ++ [t.name] ∧
      (∀ s, i.edges.lookup s = if s = t.name then some (group t.foreignKeys)
        else if s ∈ (ofTables tables).names then
          some (group ((ofTables tables).foreignKeys s))
        else none) ∧
      ∀ n, i.referencedBy n = (ofTables tables).referencedBy n ++
        if t.foreignKeys.any (·.reference.table == n) then [t.name] else [] := by
  have hnames : (ofTables (tables ++ [t])).names =
      (ofTables tables).names ++ [t.name] := by
    rw [ReferenceGraph.names, tables_concat ht, List.map_append, ← ReferenceGraph.names,
      List.map_singleton]
  have hedges (s : String) : (if s ∈ (ofTables (tables ++ [t])).names then
        some (group ((ofTables (tables ++ [t])).foreignKeys s)) else none) =
      if s = t.name then some (group t.foreignKeys)
      else if s ∈ (ofTables tables).names then
        some (group ((ofTables tables).foreignKeys s))
      else none := by
    rw [foreignKeys_concat ht, hnames]
    by_cases hs : s = t.name
    · simp [hs]
    · simp [hs]
  constructor
  · rintro ⟨h1, h2, h3⟩
    exact ⟨h1.trans hnames, fun s ↦ (h2 s).trans (hedges s),
      fun n ↦ (h3 n).trans (referencedBy_concat ht n)⟩
  · rintro ⟨h1, h2, h3⟩
    exact ⟨h1.trans hnames.symm, fun s ↦ (h2 s).trans (hedges s).symm,
      fun n ↦ (h3 n).trans (referencedBy_concat ht n).symm⟩

/-- A table with a new name is declared, still without fields, before its fields are entered. -/
theorem IsIndexOf.declare (h : i.IsIndexOf tables) (ht : t.name ∉ tables.map Table.name) :
    IsIndexOf { i with tables := i.tables ++ [t], edges := alter t.name id i.edges }
      (tables ++ [⟨t.name, []⟩]) := by
  refine (isIndexOf_concat_iff (t := ⟨t.name, []⟩) ht).2 ⟨?_, fun s ↦ ?_, fun n ↦ ?_⟩
  · rw [List.map_append, h.names, List.map_singleton]
  · have hnone : i.edges.lookup t.name = none := by
      rw [h.edges, if_neg (mem_names_ofTables.not.2 ht)]
    rw [lookup_alter, entry, hnone, h.edges]
    rfl
  · exact (h.sources n).trans (List.append_nil _).symm

/-- Each field that is entered keeps the index one of the fields so far. -/
theorem IsIndexOf.enterField (hsource : source ∉ tables.map Table.name)
    (h : i.IsIndexOf (tables ++ [⟨source, fields⟩])) (f : Field) :
    (i.enterField source f).IsIndexOf (tables ++ [⟨source, fields ++ [f]⟩]) := by
  obtain ⟨hnames, hedges, hsources⟩ := (isIndexOf_concat_iff (t := ⟨source, fields⟩) hsource).1 h
  refine (isIndexOf_concat_iff (t := ⟨source, fields ++ [f]⟩) hsource).2 ?_
  cases hf : f.reference with
  | none =>
    rw [ReferenceIndex.enterField, foreignKeys_mk_concat, hf, Option.map_none, Option.toList_none,
      List.append_nil]
    exact ⟨hnames, hedges, hsources⟩
  | some r =>
    rw [ReferenceIndex.enterField, foreignKeys_mk_concat, hf, Option.map_some, Option.toList_some]
    refine ⟨hnames, fun s ↦ ?_, fun n ↦ ?_⟩
    · rw [lookup_alter, entry, hedges, hedges]
      by_cases hs : s = source
      · rw [if_pos hs, if_pos hs, if_pos rfl, Option.getD_some]
        exact congrArg some (alter_group _ ⟨f.name, r⟩)
      · rw [if_neg hs, if_neg hs, if_neg hs]
    · -- the table is listed once, whichever of its fields comes first to `n`: only its own fields
      -- can have listed it, because its name is new
      have hnew : source ∉ (ofTables tables).referencedBy n := fun hmem ↦
        hsource (mem_names_ofTables.1 ((referencedBy_sublist _ n).subset hmem))
      rw [List.any_append, List.any_cons, List.any_nil, Bool.or_false]
      rw [referencedBy, entry_alter, ← referencedBy, ← referencedBy, hsources, hsources]
      by_cases hn : n = r.table
      · subst hn
        rw [if_pos rfl]
        by_cases hany : (foreignKeys ⟨source, fields⟩).any (·.reference.table == r.table) = true
        · simp [hany]
        · simp [hany, hnew]
      · rw [if_neg hn, beq_false_of_ne (Ne.symm hn), Bool.or_false]

theorem IsIndexOf.enterFields (hsource : source ∉ tables.map Table.name)
    (h : i.IsIndexOf (tables ++ [⟨source, fields⟩])) (more : List Field) :
    (more.foldl (ReferenceIndex.enterField source) i).IsIndexOf
      (tables ++ [⟨source, fields ++ more⟩]) := by
  induction more generalizing i fields with
  | nil => rwa [List.append_nil]
  | cons f more ih =>
    rw [List.foldl_cons, List.append_cons fields]
    exact ih (h.enterField hsource f)

/-- Each table that is entered keeps the index one of the tables so far. -/
theorem IsIndexOf.enterTable (h : i.IsIndexOf tables) (t : Table) :
    (i.enterTable t).IsIndexOf (tables ++ [t]) := by
  rw [ReferenceIndex.enterTable]
  have hmem : t.name ∈ i.tables.map Table.name ↔ t.name ∈ tables.map Table.name := by
    rw [h.names, mem_names_ofTables]
  by_cases ht : t.name ∈ tables.map Table.name
  · obtain ⟨hnames, hedges, hsources⟩ := h
    rw [if_pos (hmem.2 ht)]
    rw [← ofTables_concat_of_mem ht] at hnames hedges hsources
    exact ⟨hnames, hedges, hsources⟩
  · rw [if_neg (hmem.not.2 ht)]
    exact (h.declare ht).enterFields ht t.fields

/-- **One pass fills in both directions of the graph.** -/
theorem isIndexOf_fill (tables : List Table) : (fill tables).IsIndexOf tables := by
  induction tables using List.reverseRecOn with
  | nil => exact ⟨rfl, fun _ ↦ rfl, fun _ ↦ rfl⟩
  | append_singleton tables t ih =>
    rw [fill, List.foldl_concat]
    exact ih.enterTable t

/-! ### Look-ups

What is asked of an index has the same answer as asked of the graph. -/

theorem IsIndexOf.outgoing_eq (h : i.IsIndexOf tables) (source : String) :
    i.outgoing source = (ofTables tables).outgoing source := by
  rw [outgoing, entry, h.edges]
  by_cases hsource : source ∈ (ofTables tables).names
  · rw [if_pos hsource]
    rfl
  · rw [if_neg hsource, ReferenceGraph.outgoing, foreignKeys_ofTables,
      find?_eq_none_iff.2 (mem_names_ofTables.not.1 hsource)]
    rfl

theorem mapM_eq_some_map {α β : Type} {l : List α} {f : α → Option β} {g : α → β}
    (h : ∀ a ∈ l, f a = some (g a)) : l.mapM f = some (l.map g) := by
  induction l with
  | nil => rfl
  | cons a l ih =>
    obtain ⟨ha, hl⟩ := List.forall_mem_cons.1 h
    rw [List.mapM_cons, ha, ih hl]
    rfl

/-- No look-up fails: a table that is listed as referring to another has foreign keys to it. -/
theorem IsIndexOf.incoming?_eq (h : i.IsIndexOf tables) (target : String) :
    i.incoming? target = some ((ofTables tables).incoming target) := by
  rw [incoming?, h.sources]
  refine mapM_eq_some_map fun source hsource ↦ ?_
  have hname := (referencedBy_sublist _ target).subset hsource
  rw [h.edges, if_pos hname]
  have hkeys := lookup_group (mem_referencedBy_iff.1 hsource)
  simp only [Option.bind_eq_bind, Option.bind_some, hkeys]
  rfl

end ReferenceIndex

/-! ## Outgoing and incoming references

What the two directions have to do with each other, said of the graph; the index comes in at the
end. -/

namespace ReferenceGraph

open Table ReferenceIndex

variable {tables : List Table} {source target : String} {keys : List ForeignKey}

theorem outgoing_ofTables (source : String) :
    (ofTables tables).outgoing source = (targets tables source).eraseDups.map fun target ↦
      (target, (fieldsTo tables source target).map (keyTo target)) := by
  rw [outgoing, map_table_foreignKeys_ofTables]
  exact List.map_congr_left fun target _ ↦ congrArg _ foreignKeysTo_ofTables

theorem map_fst_outgoing (g : ReferenceGraph) (source : String) :
    (g.outgoing source).map Prod.fst =
      ((g.foreignKeys source).map (·.reference.table)).eraseDups := by
  rw [outgoing, List.map_map]
  exact List.map_id _

theorem map_fst_incoming (g : ReferenceGraph) (target : String) :
    (g.incoming target).map Prod.fst = g.referencedBy target := by
  rw [incoming, List.map_map]
  exact List.map_id _

theorem mem_outgoing {g : ReferenceGraph} :
    (target, keys) ∈ g.outgoing source ↔
      target ∈ (g.foreignKeys source).map (·.reference.table) ∧
        keys = g.foreignKeysTo source target := by
  simp only [outgoing, List.mem_map (b := (target, keys)), List.mem_eraseDups, Prod.mk.injEq]
  constructor
  · rintro ⟨t, ht, rfl, rfl⟩
    exact ⟨ht, rfl⟩
  · rintro ⟨ht, rfl⟩
    exact ⟨target, ht, rfl, rfl⟩

theorem mem_incoming {g : ReferenceGraph} :
    (source, keys) ∈ g.incoming target ↔
      source ∈ g.referencedBy target ∧ keys = g.foreignKeysTo source target := by
  rw [incoming, List.mem_map]
  constructor
  · rintro ⟨s, hs, heq⟩
    obtain ⟨rfl, rfl⟩ := Prod.mk.inj heq
    exact ⟨hs, rfl⟩
  · rintro ⟨hs, rfl⟩
    exact ⟨source, hs, rfl⟩

theorem foreignKeysTo_ne_nil {g : ReferenceGraph}
    (h : target ∈ (g.foreignKeys source).map (·.reference.table)) :
    g.foreignKeysTo source target ≠ [] := by
  obtain ⟨k, hk, rfl⟩ := List.mem_map.1 h
  exact List.ne_nil_of_mem (List.mem_filter.2 ⟨hk, beq_self_eq_true _⟩)

/-- **The two directions of the references are the transposes of each other.**  A table is listed as
referring to another if and only if that one is a target of its first declaration.  The tables that
refer to one are listed once each, in the order of declaration, and the targets of a table in the
order in which its fields first come to them, each with all the fields that refer to it, of which
there is one at least.  The references that come in are just those that go out, and one pass over
the fields fills in all of this, so that no look-up fails. -/
theorem ofTables_transpose (tables : List Table) :
    (∀ source target, source ∈ (ofTables tables).referencedBy target ↔
      target ∈ ((ofTables tables).outgoing source).map Prod.fst) ∧
    (∀ target, ((ofTables tables).referencedBy target).Nodup ∧
      ((ofTables tables).referencedBy target).Sublist (tables.map Table.name).eraseDups) ∧
    (∀ source, (ofTables tables).outgoing source =
      (targets tables source).eraseDups.map fun target ↦
        (target, (fieldsTo tables source target).map (keyTo target))) ∧
    (∀ source, ∀ group ∈ (ofTables tables).outgoing source, group.2 ≠ []) ∧
    (∀ target, ((ofTables tables).incoming target).map Prod.fst =
      (ofTables tables).referencedBy target) ∧
    (∀ source target keys, (source, keys) ∈ (ofTables tables).incoming target ↔
      (target, keys) ∈ (ofTables tables).outgoing source) ∧
    ∀ name, (fill tables).outgoing name = (ofTables tables).outgoing name ∧
      (fill tables).referencedBy name = (ofTables tables).referencedBy name ∧
      (fill tables).incoming? name = some ((ofTables tables).incoming name) := by
  have hfill := isIndexOf_fill tables
  refine ⟨fun source target ↦ ?_, fun target ↦ ?_, outgoing_ofTables, ?_, map_fst_incoming _, ?_,
    fun name ↦ ⟨hfill.outgoing_eq name, hfill.sources name, hfill.incoming?_eq name⟩⟩
  · rw [mem_referencedBy_iff, map_fst_outgoing, List.mem_eraseDups]
  · rw [← names_ofTables]
    have hsublist := referencedBy_sublist (ofTables tables) target
    exact ⟨hsublist.nodup (ofTables tables).nodup, hsublist⟩
  · rintro source ⟨target, keys⟩ h
    obtain ⟨htarget, rfl⟩ := mem_outgoing.1 h
    exact foreignKeysTo_ne_nil htarget
  · intro source target keys
    rw [mem_incoming, mem_outgoing, mem_referencedBy_iff]

/-- Posts, which are declared twice and refer to their author and editor and to one another; users,
who refer to a table that is not declared; and comments. -/
def edited : List Table :=
  [{ name := "post", fields := [
      { name := "author_id", reference := some { table := "user" } },
      { name := "parent_id", reference := some { table := "post" } },
      { name := "editor_id", reference := some { table := "user" } }] },
   { name := "user", fields := [{ name := "image_id", reference := some { table := "image" } }] },
   { name := "post", fields := [{ name := "topic_id", reference := some { table := "topic" } }] },
   { name := "comment", fields := [
      { name := "post_id", reference := some { table := "post" } },
      { name := "author_id", reference := some { table := "user" } }] }]

/-- The fields for the author and the editor stand together, and nothing refers to a topic. -/
theorem ofTables_transpose_edited :
    (ofTables edited).outgoing "post" =
      [("user", [⟨"author_id", { table := "user" }⟩, ⟨"editor_id", { table := "user" }⟩]),
       ("post", [⟨"parent_id", { table := "post" }⟩])] ∧
    (∀ group ∈ (ofTables edited).outgoing "post", group.2 ≠ []) ∧
    (ofTables edited).referencedBy "post" = ["post", "comment"] ∧
    (fill edited).incoming? "image" = some [("user", [⟨"image_id", { table := "image" }⟩])] ∧
    (fill edited).incoming? "topic" = some [] := by
  obtain ⟨-, -, -, hne, -, -, hfill⟩ := ofTables_transpose edited
  refine ⟨by decide +kernel, hne "post", by decide +kernel, ?_, ?_⟩
  · rw [(hfill "image").2.2]
    decide +kernel
  · rw [(hfill "topic").2.2]
    decide +kernel

end ReferenceGraph

end ErDiagram
