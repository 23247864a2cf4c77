import ErDiagram.Proofs.Reference.Walk

/-!
# The foreign keys that hops follow

`Table.Declares` says that the first declaration of a table has a field that refers to a given field
of a table, and `Table.Linked` that one of two tables refers to the other in this way.  Every hop
follows a foreign key that is declared, forwards (`ReferenceGraph.declares_of_mem_forwardHops`) or
in reverse (`ReferenceGraph.declares_of_mem_reverseHops`), and from a table there are hops to just
those tables that it is linked with (`ReferenceGraph.exists_mem_hops_iff`), whichever columns are
chosen.

These notions speak of the tables of a diagram and not of the graph made from them.  The first
declaration of a table is the one that is found by its name in the whole list, and a table refers to
another if a field of that declaration does; neither the grouping of foreign keys nor the choice
among parallel ones is mentioned.  What is proved of paths in the other modules is stated with them,
and here the graph is shown to say the same.
-/

set_option autoImplicit false

namespace ErDiagram

/-! ## Declared foreign keys

Which table refers to which, through which field: first as said by the tables, then as found in the
graph.  Whether a table refers to another can be decided by looking at the graph. -/

namespace Table

variable {tables : List Table} {source field target targetField name : String}

/-- The first declaration of a table has a field with a given name that refers to a field of a
table. -/
def Declares (tables : List Table) (source field target targetField : String) : Prop :=
  ∃ t, find? tables source = some t ∧ ∃ f ∈ t.fields, f.name = field ∧
    ∃ r, f.reference = some r ∧ r.table = target ∧ r.field = targetField

/-- The first declaration of a table has a field that refers to a table. -/
def Refers (tables : List Table) (source target : String) : Prop :=
  ∃ field targetField, Declares tables source field target targetField

/-- The first declarations of two tables are linked by a reference, in either direction. -/
def Linked (tables : List Table) (a b : String) : Prop := Refers tables a b ∨ Refers tables b a

theorem Linked.symm {a b : String} (h : Linked tables a b) : Linked tables b a := Or.symm h

theorem mem_names_firstDeclarations :
    name ∈ (firstDeclarations tables).map Table.name ↔ name ∈ tables.map Table.name := by
  induction tables with
  | nil => rfl
  | cons t ts ih =>
    rw [firstDeclarations, List.map_cons, List.mem_cons, List.map_cons, List.mem_cons, ← ih]
    simp only [List.mem_map, List.mem_filter, decide_eq_true_eq]
    constructor
    · rintro (h | ⟨u, ⟨hu, _⟩, hname⟩)
      · exact .inl h
      · exact .inr ⟨u, hu, hname⟩
    · rintro (h | ⟨u, hu, hname⟩)
      · exact .inl h
      · by_cases he : u.name = t.name
        · exact .inl (hname.symm.trans he)
        · exact .inr ⟨u, ⟨hu, he⟩, hname⟩

/-- A look-up by name only ever finds a first declaration. -/
theorem find?_firstDeclarations (tables : List Table) (name : String) :
    find? (firstDeclarations tables) name = find? tables name := by
  induction tables with
  | nil => rfl
  | cons t ts ih =>
    rw [firstDeclarations, find?, find?]
    by_cases hname : t.name = name
    · rw [List.find?_cons_of_pos (by simpa using hname),
        List.find?_cons_of_pos (by simpa using hname)]
    · rw [List.find?_cons_of_neg (by simpa using hname),
        List.find?_cons_of_neg (by simpa using hname), List.find?_filter]
      rw [find?, find?] at ih
      rw [← ih]
      refine congrArg (List.find? · _) (funext fun u ↦ ?_)
      by_cases hu : u.name = name
      · have hne : u.name ≠ t.name := fun he ↦ hname (he.symm.trans hu)
        simp [hu, hu ▸ hne]
      · simp [hu]

theorem name_of_find? {t : Table} (h : find? tables name = some t) : t ∈ tables ∧ t.name = name :=
  ⟨List.mem_of_find?_eq_some h, by simpa using List.find?_some h⟩

theorem find?_of_mem {t : Table} (hnodup : (tables.map Table.name).Nodup) (ht : t ∈ tables) :
    find? tables t.name = some t := by
  induction tables with
  | nil => cases ht
  | cons u us ih =>
    rw [List.map_cons, List.nodup_cons] at hnodup
    rcases List.mem_cons.1 ht with rfl | ht
    · exact List.find?_cons_of_pos (by simp)
    · have hne : u.name ≠ t.name := fun he ↦ hnodup.1 (he ▸ List.mem_map_of_mem ht)
      rw [find?, List.find?_cons_of_neg (by simpa using hne)]
      exact ih hnodup.2 ht

theorem mem_foreignKeys {t : Table} {k : ForeignKey} :
    k ∈ t.foreignKeys ↔ ∃ f ∈ t.fields, f.name = k.field ∧ f.reference = some k.reference := by
  simp only [foreignKeys, List.mem_filterMap, Option.map_eq_some_iff]
  constructor
  · rintro ⟨f, hf, r, hr, rfl⟩
    exact ⟨f, hf, rfl, hr⟩
  · rintro ⟨f, hf, hname, hr⟩
    exact ⟨f, hf, k.reference, hr, by rw [hname]⟩

/-! ### The targets of a table

The same fields seen from the side of the tables they refer to, in order and with repetitions.  The
order of hops forwards comes from this list. -/

/-- The tables that the fields of a table refer to, in the order of declaration and as often as
there is such a field.  Only the first declaration of the table counts. -/
def targets (tables : List Table) (source : String) : List String :=
  (((find? tables source).map Table.fields).getD []).filterMap (·.reference.map Reference.table)

theorem map_table_foreignKeys (t : Table) :
    t.foreignKeys.map (·.reference.table) =
      t.fields.filterMap (·.reference.map Reference.table) := by
  simp [foreignKeys, List.map_filterMap, Function.comp_def]

/-- Users, their posts and the comments on them; no foreign key leads away from a user. -/
def thread : List Table :=
  [{ name := "user", fields := [{ name := "id" }] },
   { name := "post", fields := [
      { name := "author_id", modifiers := { fk := true }, reference := some { table := "user" } }] },
   { name := "comment", fields := [
      { name := "post_id", modifiers := { fk := true }, reference := some { table := "post" } }] }]

end Table

namespace ReferenceGraph

open Table

variable {tables : List Table} {columns : List Column} {source target table next : String}
  {k : ForeignKey} {h : Hop}

/-! ### Foreign keys in the graph

The graph keeps the first declaration of each table, and a look-up by name finds the first of
several tables, so the two agree on whose fields count. -/

theorem mem_names_ofTables {name : String} :
    name ∈ (ofTables tables).names ↔ name ∈ tables.map Table.name :=
  mem_names_firstDeclarations

/-- The foreign keys of a table are those of its first declaration. -/
theorem foreignKeys_ofTables (source : String) : (ofTables tables).foreignKeys source =
    ((find? tables source).map Table.foreignKeys).getD [] := by
  rw [foreignKeys, show (ofTables tables).tables = firstDeclarations tables from rfl,
    find?_firstDeclarations]

theorem map_table_foreignKeys_ofTables :
    ((ofTables tables).foreignKeys source).map (·.reference.table) = targets tables source := by
  rw [foreignKeys_ofTables, targets]
  cases find? tables source with
  | none => rfl
  | some t => exact t.map_table_foreignKeys

theorem mem_foreignKeys_ofTables : k ∈ (ofTables tables).foreignKeys source ↔
    ∃ t, find? tables source = some t ∧ k ∈ t.foreignKeys := by
  rw [foreignKeys_ofTables]
  cases find? tables source <;> simp

/-- The foreign keys of a table are those that its first declaration declares. -/
theorem exists_mem_foreignKeys_iff :
    (∃ k ∈ (ofTables tables).foreignKeys source, k.reference.table = target) ↔
      Refers tables source target := by
  constructor
  · rintro ⟨k, hk, hto⟩
    obtain ⟨t, ht, hk⟩ := mem_foreignKeys_ofTables.1 hk
    obtain ⟨f, hf, _, hr⟩ := mem_foreignKeys.1 hk
    exact ⟨f.name, k.reference.field, t, ht, f, hf, rfl, k.reference, hr, hto, rfl⟩
  · rintro ⟨_, _, t, ht, f, hf, rfl, r, hr, hto, rfl⟩
    exact ⟨⟨f.name, r⟩, mem_foreignKeys_ofTables.2 ⟨t, ht, mem_foreignKeys.2 ⟨f, hf, rfl, hr⟩⟩, hto⟩

theorem declares_of_mem_foreignKeysTo (hk : k ∈ (ofTables tables).foreignKeysTo source target) :
    Declares tables source k.field target k.reference.field := by
  obtain ⟨hk, hto⟩ := List.mem_filter.1 hk
  obtain ⟨t, ht, hk⟩ := mem_foreignKeys_ofTables.1 hk
  obtain ⟨f, hf, hname, hr⟩ := mem_foreignKeys.1 hk
  exact ⟨t, ht, f, hf, hname, k.reference, hr, by simpa using hto, rfl⟩

/-- The tables that are listed as referring to a table do refer to it, and there are no others. -/
theorem mem_referencedBy_ofTables :
    source ∈ (ofTables tables).referencedBy target ↔ Refers tables source target := by
  rw [referencedBy, ← exists_mem_foreignKeys_iff]
  simp only [List.mem_map, List.mem_filter, List.any_eq_true, beq_iff_eq]
  constructor
  · rintro ⟨t, ⟨ht, k, hk, hto⟩, rfl⟩
    have hfind := find?_of_mem (ofTables tables).nodup ht
    rw [show (ofTables tables).tables = firstDeclarations tables from rfl,
      find?_firstDeclarations] at hfind
    exact ⟨k, mem_foreignKeys_ofTables.2 ⟨t, hfind, hk⟩, hto⟩
  · rintro ⟨k, hk, hto⟩
    obtain ⟨t, ht, hk⟩ := mem_foreignKeys_ofTables.1 hk
    rw [← find?_firstDeclarations] at ht
    obtain ⟨hmem, hname⟩ := name_of_find? ht
    exact ⟨t, ⟨hmem, k, hk, hto⟩, hname⟩

instance decidableRefers (tables : List Table) (source target : String) :
    Decidable (Refers tables source target) :=
  decidable_of_iff _ mem_referencedBy_ofTables

instance decidableLinked (tables : List Table) (a b : String) : Decidable (Linked tables a b) :=
  inferInstanceAs (Decidable (_ ∨ _))

/-! ## The foreign keys of hops

Of several foreign keys to one table one is preferred, but there always is one if there are any
(`exists_hop?`).  Therefore hops lead to all tables that are referred to, and where they lead does
not depend on the chosen columns. -/

theorem mem_of_preferred? {g : ReferenceGraph} {keys : List ForeignKey}
    (hk : g.preferred? target keys columns = some k) : k ∈ keys := by
  rcases Option.or_eq_some_iff.1 hk with hk | ⟨_, hk⟩
  · exact List.mem_of_find?_eq_some hk
  · exact List.mem_of_head? hk

theorem isSome_preferred? (g : ReferenceGraph) (target : String) (columns : List Column)
    {keys : List ForeignKey} (hk : k ∈ keys) :
    ∃ k', g.preferred? target keys columns = some k' := by
  rw [← Option.isSome_iff_exists, preferred?, Option.isSome_or, Bool.or_eq_true]
  exact .inr (by simpa using List.ne_nil_of_mem hk)

/-- Some foreign key is followed to a table, if there is one. -/
theorem exists_hop? (columns : List Column) (table : String) (reverse : Bool)
    (hs : Refers tables source target) : ∃ h, (ofTables tables).hop? columns table target reverse
      ((ofTables tables).foreignKeysTo source target) = some h := by
  obtain ⟨k, hk, hto⟩ := exists_mem_foreignKeys_iff.2 hs
  have hkeys : k ∈ (ofTables tables).foreignKeysTo source target :=
    List.mem_filter.2 ⟨hk, by simpa using hto⟩
  obtain ⟨k', hk'⟩ := isSome_preferred? (ofTables tables) target columns hkeys
  exact ⟨_, Option.map_eq_some_iff.2 ⟨k', hk', rfl⟩⟩

/-- A hop follows a foreign key that the source declares for the target. -/
theorem declares_of_hop? {reverse : Bool} (hh : (ofTables tables).hop? columns table next reverse
    ((ofTables tables).foreignKeysTo source target) = some h) :
    h.reverse = reverse ∧ Declares tables source h.field target h.target := by
  obtain ⟨k, hk, rfl⟩ := Option.map_eq_some_iff.1 hh
  exact ⟨rfl, declares_of_mem_foreignKeysTo (mem_of_preferred? hk)⟩

theorem declares_of_mem_forwardHops (hm : (h, next) ∈ (ofTables tables).forwardHops columns table) :
    h.reverse = false ∧ Declares tables table h.field next h.target :=
  declares_of_hop? (mem_forwardHops.1 hm).2

theorem declares_of_mem_reverseHops (hm : (h, next) ∈ (ofTables tables).reverseHops columns table) :
    h.reverse = true ∧ Declares tables next h.field table h.target :=
  declares_of_hop? (mem_reverseHops.1 hm).2

/-- Whichever columns are chosen, hops lead to the tables that a table is linked with. -/
theorem exists_mem_hops_iff :
    (∃ h, (h, next) ∈ (ofTables tables).hops columns table) ↔ Linked tables table next := by
  simp only [hops, List.mem_append]
  constructor
  · rintro ⟨h, hf | hr⟩
    · exact .inl ⟨h.field, h.target, (declares_of_mem_forwardHops hf).2⟩
    · exact .inr ⟨h.field, h.target, (declares_of_mem_reverseHops hr).2⟩
  · rintro (hs | hs)
    · obtain ⟨h, hh⟩ := exists_hop? columns table false hs
      exact ⟨h, .inl (mem_forwardHops.2 ⟨exists_mem_foreignKeys_iff.2 hs, hh⟩)⟩
    · obtain ⟨h, hh⟩ := exists_hop? columns table true hs
      exact ⟨h, .inr (mem_reverseHops.2 ⟨mem_referencedBy_ofTables.2 hs, hh⟩)⟩

end ReferenceGraph

end ErDiagram
