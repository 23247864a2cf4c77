import Mathlib.Data.List.Nodup
import ErDiagram.Proofs.Reference.Forward

/-!
# Paths follow preferred foreign keys and visit no table twice

Several fields of a table may refer to the same other table.  Of these a field is
`Table.Suggested` if a chosen column has its name, on a table that refers there as well, and the
`Table.Preferred` one is the first suggested, or the first of all if none is.

`Path.find?_sound` says what a path is: it starts at the base and ends at the target, visits no
table twice, goes to declared tables only, and each of its hops goes along the preferred field of
the table before it or, in reverse, of the table it leads to.  The base need not be declared: tables
may refer to it all the same.

Two things are proved apart.  That no table is visited twice comes from the searches: depth-first
search finds a way, which has no repetitions by definition, and breadth-first search only goes on to
nodes that are not seen, while those on a trail all are (`Search.nodup_of_breadthFirst`).  That each
hop goes along the preferred field comes from the moves, whichever search has put them together, and
holds of every move of the graph (`ReferenceGraph.goesAlong_of_mem_hops`).
-/

set_option autoImplicit false

namespace ErDiagram

namespace Search

variable {ν σ : Type} [DecidableEq ν] {nodes seen : List ν} {moves : ν → List (σ × ν)}
  {target : ν} {origin : σ → ν}

/-- Breadth-first search goes to no node twice: the nodes on every trail have been seen, and it only
goes on to others. -/
theorem nodup_of_breadthFirst (horigin : ∀ n, ∀ m ∈ moves n, origin m.1 = n)
    {todo : List (Trail ν σ)} {path : List σ}
    (htodo : ∀ t ∈ todo, (t.2 :: t.1.map origin).Nodup ∧ t.2 :: t.1.map origin ⊆ seen)
    (h : breadthFirst nodes moves target seen todo = some path) :
    (path.map origin ++ [target]).Nodup := by
  fun_induction breadthFirst nodes moves target seen todo with
  | case1 => cases h
  | case2 seen t todo heq =>
    obtain rfl := Option.some.inj h
    rw [← List.nodup_reverse, List.reverse_append, ← List.map_reverse, List.reverse_reverse, ← heq]
    exact (htodo t List.mem_cons_self).1
  | case3 seen t todo _ ih =>
    refine ih (fun u hu ↦ ?_) h
    rcases List.mem_append.1 hu with hu | hu
    · obtain ⟨hnodup, hseen⟩ := htodo u (List.mem_cons_of_mem _ hu)
      exact ⟨hnodup, List.subset_append_of_subset_right _ hseen⟩
    · obtain ⟨m, hm, rfl⟩ := List.mem_map.1 hu
      obtain ⟨hnodup, hseen⟩ := htodo t List.mem_cons_self
      simp only [List.map_cons, horigin t.2 m (fresh_subset _ _ _ hm)]
      -- the new node was not seen before, and every node of the trail was
      refine ⟨List.nodup_cons.2 ⟨fun hmem ↦ (new_of_mem_fresh hm).2 (hseen hmem), hnodup⟩,
        List.cons_subset.2 ⟨?_, List.subset_append_of_subset_right _ hseen⟩⟩
      exact List.mem_append_left _ (List.mem_reverse.2 (List.mem_map_of_mem hm))

end Search

open Search

/-! ## Parallel foreign keys

Which of several fields is followed is a rule of its own and is stated of the fields as they are
declared.  A chosen column suggests a field if it has its name; the table of that column need not be
the one that declares the field, but it has to refer to the same table. -/

namespace Table

variable {tables : List Table} {columns : List Column} {source target : String}

/-- The fields of a table that refer to another, in the order of declaration.  Only the first
declaration of the table counts. -/
def fieldsTo (tables : List Table) (source target : String) : List Field :=
  (((find? tables source).map Table.fields).getD []).filter
    (·.reference.map Reference.table == some target)

/-- A chosen column has the name of a field, on a table that refers to the target as well. -/
def Suggested (tables : List Table) (columns : List Column) (target : String) (f : Field) : Prop :=
  ∃ c ∈ columns, c.field = f.name ∧ Refers tables c.table target

/-- Which of the fields that refer from one table to another is preferred. -/
inductive Preferred (tables : List Table) (columns : List Column) (source target : String) :
    Field → Prop
  /-- The first that is suggested. -/
  | suggested {f : Field} {before after : List Field}
      (h : fieldsTo tables source target = before ++ f :: after)
      (hf : Suggested tables columns target f)
      (hbefore : ∀ g ∈ before, ¬ Suggested tables columns target g) :
      Preferred tables columns source target f
  /-- The first of all, if none is suggested. -/
  | first {f : Field} {after : List Field} (h : fieldsTo tables source target = f :: after)
      (hnone : ∀ g ∈ f :: after, ¬ Suggested tables columns target g) :
      Preferred tables columns source target f

theorem Preferred.mem_fieldsTo {f : Field} (h : Preferred tables columns source target f) :
    f ∈ fieldsTo tables source target := by
  cases h with
  | suggested h => exact h ▸ List.mem_append_right _ List.mem_cons_self
  | first h => exact h ▸ List.mem_cons_self

theorem exists_reference_of_mem_fieldsTo {f : Field} (hf : f ∈ fieldsTo tables source target) :
    ∃ r, f.reference = some r ∧ r.table = target := by
  have htable := (List.mem_filter.1 hf).2
  rw [beq_iff_eq] at htable
  exact Option.map_eq_some_iff.1 htable

/-- A field as a foreign key; every field that refers to the target is one. -/
def keyTo (target : String) (f : Field) : ForeignKey :=
  ⟨f.name, f.reference.getD { table := target }⟩

theorem foreignKeys_filter (t : Table) (target : String) :
    t.foreignKeys.filter (·.reference.table == target) =
      (t.fields.filter (·.reference.map Reference.table == some target)).map (keyTo target) := by
  rw [foreignKeys, List.filter_filterMap, ← List.filterMap_eq_map, List.filterMap_filter]
  refine List.filterMap_congr fun f _ ↦ ?_
  cases hr : f.reference with
  | none => simp
  | some r => by_cases ht : r.table = target <;> simp [Option.filter, keyTo, hr, ht]

end Table

namespace ReferenceGraph

open Table

variable {tables : List Table} {columns : List Column} {source target table next : String}
  {f : Field} {h : Hop}

theorem foreignKeysTo_ofTables : (ofTables tables).foreignKeysTo source target =
    (fieldsTo tables source target).map (keyTo target) := by
  rw [foreignKeysTo, foreignKeys_ofTables, fieldsTo]
  cases find? tables source with
  | none => rfl
  | some t => exact t.foreignKeys_filter target

theorem suggested_iff : (columns.any fun c ↦ c.field == (keyTo target f).field &&
    ((ofTables tables).referencedBy target).contains c.table) = true ↔
      Suggested tables columns target f := by
  simp [Suggested, keyTo, mem_referencedBy_ofTables]

/-- The foreign key that is followed is the preferred field. -/
theorem exists_preferred {k : ForeignKey}
    (hk : (ofTables tables).preferred? target ((ofTables tables).foreignKeysTo source target)
      columns = some k) :
    ∃ f, Preferred tables columns source target f ∧ keyTo target f = k := by
  rw [preferred?, foreignKeysTo_ofTables, List.find?_map, List.head?_map] at hk
  rcases Option.or_eq_some_iff.1 hk with hfind | ⟨hnone, hhead⟩
  · obtain ⟨f, hf, rfl⟩ := Option.map_eq_some_iff.1 hfind
    obtain ⟨hsuggested, before, after, heq, hbefore⟩ := List.find?_eq_some_iff_append.1 hf
    refine ⟨f, .suggested heq (suggested_iff.1 hsuggested) fun g hg hsuggested' ↦ ?_, rfl⟩
    have hnot := hbefore g hg
    rw [Function.comp_apply, suggested_iff.2 hsuggested'] at hnot
    cases hnot
  · obtain ⟨f, hf, rfl⟩ := Option.map_eq_some_iff.1 hhead
    obtain ⟨after, heq⟩ := List.head?_eq_some_iff.1 hf
    refine ⟨f, .first heq fun g hg hsuggested ↦ ?_, rfl⟩
    exact List.find?_eq_none.1 (Option.map_eq_none_iff.1 hnone) g (heq ▸ hg)
      (suggested_iff.2 hsuggested)

end ReferenceGraph

/-! ## Sound paths

For a hop forwards the field belongs to the table that the hop starts from, for a hop in reverse to
the table it leads to.  Once these two are given names, `Hop.source` and `Hop.referred`, a hop goes
along a preferred field in the same sense whichever way it goes. -/

namespace Hop

open Table

variable {tables : List Table} {columns : List Column}

/-- The table whose field a hop goes along. -/
def source (h : Hop) (next : String) : String := if h.reverse then next else h.table

/-- The table that this field refers to. -/
def referred (h : Hop) (next : String) : String := if h.reverse then h.table else next

/-- A hop to a table goes along the preferred one of the fields that link the two. -/
def GoesAlong (tables : List Table) (columns : List Column) (h : Hop) (next : String) : Prop :=
  ∃ f, Preferred tables columns (h.source next) (h.referred next) f ∧ f.name = h.field ∧
    ∃ r, f.reference = some r ∧ r.table = h.referred next ∧ r.field = h.target

end Hop

namespace ReferenceGraph

open Table

variable {tables : List Table} {columns : List Column} {source target table next : String} {h : Hop}

theorem goesAlong_of_hop? {reverse : Bool} (hh : (ofTables tables).hop? columns table target reverse
    ((ofTables tables).foreignKeysTo source target) = some h) (hsource : h.source next = source)
    (htarget : h.referred next = target) : h.GoesAlong tables columns next := by
  subst hsource htarget
  obtain ⟨k, hk, hkey⟩ := Option.map_eq_some_iff.1 hh
  obtain ⟨f, hf, rfl⟩ := exists_preferred hk
  obtain ⟨r, hr, htable⟩ := exists_reference_of_mem_fieldsTo hf.mem_fieldsTo
  refine ⟨f, hf, congrArg Hop.field hkey, r, hr, htable, ?_⟩
  have hfield : (keyTo (h.referred next) f).reference.field = h.target := congrArg Hop.target hkey
  rwa [keyTo, hr] at hfield

theorem goesAlong_of_mem_hops (hm : (h, next) ∈ (ofTables tables).hops columns table) :
    h.GoesAlong tables columns next := by
  have htable := table_of_mem_hops hm
  rcases List.mem_append.1 hm with hf | hr
  · have hreverse := (declares_of_mem_forwardHops hf).1
    exact goesAlong_of_hop? (mem_forwardHops.1 hf).2 (by simp [Hop.source, hreverse, htable])
      (by simp [Hop.referred, hreverse])
  · have hreverse := (declares_of_mem_reverseHops hr).1
    exact goesAlong_of_hop? (mem_reverseHops.1 hr).2 (by simp [Hop.source, hreverse])
      (by simp [Hop.referred, hreverse, htable])

end ReferenceGraph

namespace Path

open Table ReferenceGraph

variable {tables : List Table} {columns : List Column} {base target : String} {p : Path}

/-! ### Paths

The conditions on a path are about its tables and its hops by position, so that nothing has to be
known of how it was found. -/

/-- A path from a base to a table that goes along foreign keys as they are preferred. -/
structure Sound (tables : List Table) (columns : List Column) (base target : String) (p : Path) :
    Prop where
  /-- It starts at the base. -/
  first : p.tables.head? = some base
  /-- It ends at the target. -/
  last : p.tables.getLast? = some target
  /-- A hop leads on from every table but the last. -/
  length : p.tables.length = p.hops.length + 1
  /-- No table is visited twice. -/
  nodup : p.tables.Nodup
  /-- All tables behind the base are declared. -/
  declared : ∀ n ∈ p.tables.tail, n ∈ tables.map Table.name
  /-- Each hop starts from the table at its position and goes along a preferred field to the
  next. -/
  along : ∀ i h, p.hops[i]? = some h → p.tables[i]? = some h.table ∧
    ∃ next, p.tables[i + 1]? = some next ∧ h.GoesAlong tables columns next

theorem nodup_tables_of_find? (h : find? (ofTables tables) columns base target = some p) :
    p.tables.Nodup := by
  rw [find?] at h
  split at h
  · obtain rfl := Option.some.inj h
    exact List.nodup_singleton _
  · next hne =>
    obtain ⟨hops, hh, rfl⟩ := Option.map_eq_some_iff.1 h
    rcases forwardSearch_route_cases columns hne with ⟨_, hfound, hfirst, -⟩ | ⟨hnone, -⟩
    · rw [hfound, Option.some_or] at hh
      obtain rfl := Option.some.inj hh
      exact hfirst.nodup
    · rw [hnone, Option.none_or] at hh
      refine nodup_of_breadthFirst (fun _ _ hm ↦ table_of_mem_hops hm) (fun t ht ↦ ?_) hh
      rw [List.mem_singleton.1 ht]
      exact ⟨List.nodup_singleton _, List.Subset.refl _⟩

/-- Whatever follows moves to some nodes has only these behind its first. -/
theorem mem_of_follows_within {nodes : List String} {moves : String → List (Hop × String)}
    {last : String} {hops : List Hop} (h : Follows (within nodes moves) last hops) :
    ∀ n ∈ (hops.map Hop.table ++ [last]).tail, n ∈ nodes := by
  induction hops with
  | nil => exact List.forall_mem_nil _
  | cons k hops ih =>
    have hnode := (mem_within.1 h.1).2
    cases hops with
    | nil => exact List.forall_mem_singleton.2 hnode
    | cons l hops => exact List.forall_mem_cons.2 ⟨hnode, ih h.2⟩

/-- **A path that is found is sound**, whether the base is declared or not. -/
theorem find?_sound (h : find? (ofTables tables) columns base target = some p) :
    p.Sound tables columns base target := by
  have hfollows := follows_within_of_find? h
  constructor
  case first =>
    rw [List.head?_eq_getElem?, ← start_of_find? h]
    exact getElem?_zero_tables _ _
  case last => rw [Path.tables, List.getLast?_concat, (walk_of_find? h).1]
  case length => simp [Path.tables]
  case nodup => exact nodup_tables_of_find? h
  case declared => exact fun n hn ↦ mem_names_ofTables.1 (mem_of_follows_within hfollows n hn)
  case along =>
    intro i hop hi
    obtain ⟨htable, next, hnext, hmove⟩ := exists_move_of_follows hfollows hi
    exact ⟨htable, next, hnext, goesAlong_of_mem_hops (within_subset _ _ _ hmove)⟩

/-- Messages from users to users, in threads, and notes to users; the users are not declared. -/
def messages : List Table :=
  let key (name table : String) : Field :=
    { name, modifiers := { fk := true }, reference := some { table } }
  [{ name := "message",
      fields := [key "sender_id" "user", key "recipient_id" "user", key "thread_id" "thread"] },
   { name := "note", fields := [key "recipient_id" "user"] },
   { name := "thread" }]

/-- From the users the path leads to the threads by way of the messages that they receive, because
the recipient of the notes is chosen. -/
theorem find?_sound_messages :
    "user" ∉ messages.map Table.name ∧
      find? (ofTables messages) [⟨"note", "recipient_id"⟩] "user" "thread" =
        some ⟨[⟨"user", "recipient_id", "id", true⟩, ⟨"message", "thread_id", "id", false⟩],
          "thread"⟩ ∧
      Sound messages [⟨"note", "recipient_id"⟩] "user" "thread"
        ⟨[⟨"user", "recipient_id", "id", true⟩, ⟨"message", "thread_id", "id", false⟩],
          "thread"⟩ := by
  have hfound : find? (ofTables messages) [⟨"note", "recipient_id"⟩] "user" "thread" =
      some ⟨[⟨"user", "recipient_id", "id", true⟩, ⟨"message", "thread_id", "id", false⟩],
        "thread"⟩ := by decide +kernel
  exact ⟨by decide, hfound, find?_sound hfound⟩

end Path

end ErDiagram
