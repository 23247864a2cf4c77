import Mathlib.Data.List.Chain
import ErDiagram.Proofs.Reference.ForeignKeys

/-!
# A path is found whenever tables are connected

Tables are `Table.Connected` by a chain of declared tables of which each two neighbours are linked
by a reference, whichever of them declares it.  `Path.find?` finds a path from a declared table to
another just in case the two are connected, so that there is a path back whenever there is one
(`Path.find?_complete`).

A path that is found is a walk, and the tables on it are a chain.  That none is missed is seen from
a search that fails: what breadth-first search has seen in the end is closed under moves to nodes,
and the target is not in it (`Search.exists_closed_of_breadthFirst`).

Connection is said of tables alone.  The chain may follow each reference in either direction, and it
may visit a table as often as it likes; nothing is said of which chain the search takes.  As the
chain can be read backwards, so can the relation (`Table.connected_comm`), and with it the question
whether there is a path, although the searches from the two ends have nothing in common.

A connection is decided by looking for a path (`Path.decidableConnected`).
-/

set_option autoImplicit false

namespace ErDiagram

/-! ## What a search that fails has seen

`Covers` is the invariant of breadth-first search: every node seen is yet to be followed, or else
all nodes next to it have been seen.  When no trail is left, what has been seen is closed. -/

namespace Search

variable {ν σ : Type} [DecidableEq ν] {moves : ν → List (σ × ν)} {nodes seen : List ν} {target : ν}

/-- Every move to a node from one of some nodes leads to one of them. -/
def Closed (nodes : List ν) (moves : ν → List (σ × ν)) (seen : List ν) : Prop :=
  ∀ n ∈ seen, ∀ m ∈ within nodes moves n, m.2 ∈ seen

theorem mem_fresh_or_seen {ms : List (σ × ν)} {m : σ × ν} (hm : m ∈ ms) (hnode : m.2 ∈ nodes) :
    m.2 ∈ ((fresh nodes seen ms).map Prod.snd).reverse ++ seen := by
  rw [List.mem_append, List.mem_reverse]
  induction ms generalizing seen with
  | nil => cases hm
  | cons k ks ih =>
    rw [fresh]
    split
    · next hk =>
      rw [List.map_cons, List.mem_cons]
      rcases List.mem_cons.1 hm with rfl | hm
      · exact .inl (.inl rfl)
      · have hks : m.2 ∈ (fresh nodes (k.2 :: seen) ks).map Prod.snd ∨ m.2 ∈ k.2 :: seen := ih hm
        rcases hks with h | h
        · exact .inl (.inr h)
        · exact (List.mem_cons.1 h).imp_left .inl
    · next hk =>
      rcases List.mem_cons.1 hm with rfl | hm
      · exact .inr (not_not.1 fun hs ↦ hk ⟨hnode, hs⟩)
      · exact ih hm

/-- Every node seen is yet to be followed, or it is not the target and all nodes next to it are seen
as well. -/
def Covers (nodes : List ν) (moves : ν → List (σ × ν)) (target : ν) (seen : List ν)
    (todo : List (Trail ν σ)) : Prop :=
  ∀ n ∈ seen, n ∈ todo.map Prod.snd ∨ n ≠ target ∧ ∀ m ∈ within nodes moves n, m.2 ∈ seen

/-- A search begins with one node seen, which is yet to be followed. -/
theorem covers_start (n : ν) : Covers nodes moves target [n] [([], n)] := fun _ hm ↦ .inl hm

/-- One step of breadth-first search. -/
theorem Covers.step {t : Trail ν σ} {todo : List (Trail ν σ)}
    (h : Covers nodes moves target seen (t :: todo)) (hne : t.2 ≠ target) :
    Covers nodes moves target (((fresh nodes seen (moves t.2)).map Prod.snd).reverse ++ seen)
      (todo ++ t.extend (fresh nodes seen (moves t.2))) := by
  intro n hn
  rw [List.map_append, List.mem_append]
  rcases List.mem_append.1 hn with hfresh | hn
  · refine .inl (.inr ?_)
    simpa [Trail.extend, Function.comp_def] using hfresh
  rcases h n hn with htodo | ⟨hn, hmoves⟩
  · rcases List.mem_cons.1 htodo with rfl | htodo
    · refine .inr ⟨hne, fun m hm ↦ ?_⟩
      obtain ⟨hm, hnode⟩ := mem_within.1 hm
      exact mem_fresh_or_seen hm hnode
    · exact .inl (.inl htodo)
  · exact .inr ⟨hn, fun m hm ↦ List.mem_append_right _ (hmoves m hm)⟩

/-- **What a breadth-first search that fails has seen** is closed, and does not hold the target. -/
theorem exists_closed_of_breadthFirst {todo : List (Trail ν σ)}
    (hcovers : Covers nodes moves target seen todo)
    (h : breadthFirst nodes moves target seen todo = none) :
    ∃ closed, seen ⊆ closed ∧ target ∉ closed ∧ Closed nodes moves closed := by
  fun_induction breadthFirst nodes moves target seen todo with
  | case1 seen =>
    have hdone := fun n hn ↦ (hcovers n hn).resolve_left List.not_mem_nil
    exact ⟨seen, List.Subset.refl _, fun ht ↦ (hdone _ ht).1 rfl, fun n hn ↦ (hdone n hn).2⟩
  | case2 => cases h
  | case3 seen t todo hne ih =>
    obtain ⟨closed, hclosed, hrest⟩ := ih (hcovers.step hne) h
    exact ⟨closed, List.Subset.trans (List.subset_append_right _ _) hclosed, hrest⟩

end Search

open Search

/-! ## Connected tables

The tables on a walk are a chain, and a chain that starts among tables that are closed under hops
stays among them. -/

namespace Table

variable {tables : List Table} {a b : String}

/-- A chain of declared tables leads from one table to another; each two neighbours on it are linked
by a reference. -/
def Connected (tables : List Table) (a b : String) : Prop :=
  ∃ chain : List String, chain.head? = some a ∧ chain.getLast? = some b ∧
    (∀ n ∈ chain, n ∈ tables.map Table.name) ∧ chain.IsChain (Linked tables)

/-- Declared tables of which each two neighbours are linked by a reference lead from one table to
another. -/
structure IsConnection (tables : List Table) (a b : String) (chain : List String) : Prop where
  /-- The first table. -/
  head : chain.head? = some a
  /-- The last table. -/
  last : chain.getLast? = some b
  /-- All tables are declared. -/
  declared : ∀ n ∈ chain, n ∈ tables.map Table.name
  /-- Each two neighbours are linked. -/
  linked : chain.IsChain (Linked tables)

theorem connected_iff : Connected tables a b ↔ ∃ chain, IsConnection tables a b chain := by
  constructor
  · rintro ⟨chain, hhead, hlast, hdeclared, hlinked⟩
    exact ⟨chain, hhead, hlast, hdeclared, hlinked⟩
  · rintro ⟨chain, h⟩
    exact ⟨chain, h.head, h.last, h.declared, h.linked⟩

theorem Connected.symm (h : Connected tables a b) : Connected tables b a := by
  obtain ⟨chain, hhead, hlast, hnames, hlinked⟩ := h
  refine ⟨chain.reverse, by rwa [List.head?_reverse], by rwa [List.getLast?_reverse], ?_, ?_⟩
  · intro n hn
    exact hnames n (List.mem_reverse.1 hn)
  · rw [List.isChain_reverse]
    exact hlinked.imp fun _ _ h ↦ h.symm

theorem connected_comm : Connected tables a b ↔ Connected tables b a :=
  ⟨Connected.symm, Connected.symm⟩

theorem connected_self (h : a ∈ tables.map Table.name) : Connected tables a a :=
  ⟨[a], rfl, rfl, List.forall_mem_singleton.2 h, List.isChain_singleton _⟩

end Table

namespace ReferenceGraph

open Table

variable {tables : List Table} {columns : List Column} {base : String}

/-! ### Walks and chains

In one direction the tables on a walk are a chain.  In the other the chain is not made into a walk;
it is followed through the tables that a search without success has seen. -/

/-- The tables on a walk are a chain. -/
theorem isConnection_of_walk {path : List Hop} {n : String} (hbase : base ∈ tables.map Table.name)
    (h : Walk (within (ofTables tables).names ((ofTables tables).hops columns)) base path n) :
    IsConnection tables base n ((path.map Hop.table).reverse ++ [n]) := by
  induction h with
  | nil => exact ⟨rfl, rfl, List.forall_mem_singleton.2 hbase, List.isChain_singleton _⟩
  | @cons path n m s hw hs ih =>
    obtain ⟨hhop, hnode⟩ := mem_within.1 hs
    rw [List.map_cons, List.reverse_cons, table_of_mem_hops hhop]
    constructor
    case head => rw [List.head?_append, ih.head, Option.some_or]
    case last => exact List.getLast?_concat
    case declared =>
      exact List.forall_mem_append.2
        ⟨ih.declared, List.forall_mem_singleton.2 (mem_names_ofTables.1 hnode)⟩
    case linked =>
      refine ih.linked.append (List.isChain_singleton _) fun x hx y hy ↦ ?_
      obtain rfl : n = x := Option.some.inj (ih.last.symm.trans hx)
      obtain rfl : m = y := Option.some.inj hy
      exact exists_mem_hops_iff.1 ⟨s, hhop⟩

/-- A search that finds no path has seen tables that are closed under hops. -/
theorem exists_closed_of_undirectedSearch {g : ReferenceGraph} {target : String}
    (h : g.undirectedSearch columns base target = none) :
    ∃ closed, base ∈ closed ∧ target ∉ closed ∧ Closed g.names (g.hops columns) closed := by
  obtain ⟨closed, hseen, hrest⟩ := exists_closed_of_breadthFirst (covers_start base) h
  exact ⟨closed, hseen List.mem_cons_self, hrest⟩

/-- Whatever is closed under hops holds with a table all those that it is connected with. -/
theorem mem_of_connected {closed : List String} {n : String} (hbase : base ∈ closed)
    (hclosed : Closed (ofTables tables).names ((ofTables tables).hops columns) closed)
    (h : Connected tables base n) : n ∈ closed := by
  obtain ⟨chain, hhead, hlast, hnames, hlinked⟩ := h
  have hstep : chain.IsChain fun x y ↦ Linked tables x y ∧ y ∈ (ofTables tables).names :=
    hlinked.imp_of_mem_imp fun x y _ hy hxy ↦ ⟨hxy, mem_names_ofTables.2 (hnames y hy)⟩
  refine hstep.induction (· ∈ closed) chain (fun x y hxy hx ↦ ?_) (fun hne ↦ ?_) n
    (List.mem_of_getLast? hlast)
  · obtain ⟨hop, hhop⟩ := exists_mem_hops_iff.2 hxy.1
    exact hclosed x hx (hop, y) (mem_within.2 ⟨hhop, hxy.2⟩)
  · obtain rfl : chain.head hne = base := by
      rw [List.head?_eq_some_head hne] at hhead
      exact Option.some.inj hhead
    exact hbase

end ReferenceGraph

namespace Path

open Table ReferenceGraph

variable {tables : List Table} {base target : String}

/-! ### Paths and chains

A path to another table is found by the search forwards or, if that finds nothing, by the undirected
search.  The first can only find what the second would find as well, so it is the second that
decides.  A table is connected with itself, and has a path to itself, without any search. -/

/-- A path is found to another table just in case the two are connected. -/
theorem isSome_find?_iff (columns : List Column) (hbase : base ∈ tables.map Table.name)
    (hne : base ≠ target) :
    (find? (ofTables tables) columns base target).isSome ↔ Connected tables base target := by
  constructor
  · intro h
    obtain ⟨p, hp⟩ := Option.isSome_iff_exists.1 h
    exact connected_iff.2 ⟨_, isConnection_of_walk hbase (walk_of_find? hp).2⟩
  · intro hconnected
    rw [find?, if_neg hne, Option.isSome_map, Option.isSome_or, Bool.or_eq_true]
    right
    by_contra hnone
    obtain ⟨closed, hseen, htarget, hclosed⟩ :=
      exists_closed_of_undirectedSearch (Option.not_isSome_iff_eq_none.1 hnone)
    exact htarget (mem_of_connected hseen hclosed hconnected)

/-- From a declared table there is a path to just those tables that it is connected with, itself
included. -/
theorem isSome_find?_iff_connected (columns : List Column) (hbase : base ∈ tables.map Table.name) :
    (find? (ofTables tables) columns base target).isSome ↔ Connected tables base target := by
  by_cases h : base = target
  · subst h
    rw [find?, if_pos rfl]
    exact iff_of_true rfl (connected_self hbase)
  · exact isSome_find?_iff columns hbase h

instance decidableConnected (tables : List Table) (a b : String) :
    Decidable (Connected tables a b) :=
  decidable_of_iff (a ∈ tables.map Table.name ∧ (find? (ofTables tables) [] a b).isSome) <| by
    constructor
    · rintro ⟨ha, hsome⟩
      exact (isSome_find?_iff_connected [] ha).1 hsome
    · intro h
      obtain ⟨chain, hchain⟩ := connected_iff.1 h
      have ha := hchain.declared a (List.mem_of_head? hchain.head)
      exact ⟨ha, (isSome_find?_iff_connected [] ha).2 h⟩

/-- **A path is found whenever there is a way.**  From a declared table there is a path to another
just in case a chain of declared tables leads there, each two neighbours linked by a reference in
either direction; hence there is a path from one declared table to another just in case there is one
back.  The chosen columns make no difference. -/
theorem find?_complete (columns columns' : List Column) {a b : String}
    (ha : a ∈ tables.map Table.name) :
    (a ≠ b → ((∃ p, find? (ofTables tables) columns a b = some p) ↔ Connected tables a b)) ∧
      (b ∈ tables.map Table.name → ((∃ p, find? (ofTables tables) columns a b = some p) ↔
        ∃ p, find? (ofTables tables) columns' b a = some p)) := by
  simp only [← Option.isSome_iff_exists]
  refine ⟨isSome_find?_iff columns ha, fun hb ↦ ?_⟩
  by_cases hab : a = b
  · subst hab
    simp [find?]
  · rw [isSome_find?_iff columns ha hab, isSome_find?_iff columns' hb (Ne.symm hab),
      connected_comm]

/-- The users are connected with the comments by way of the posts. -/
theorem find?_complete_thread :
    "user" ∈ thread.map Table.name ∧ "user" ≠ "comment" ∧ "comment" ∈ thread.map Table.name ∧
      (∃ p, find? (ofTables thread) [] "user" "comment" = some p) ∧
      ∃ p, find? (ofTables thread) [] "comment" "user" = some p := by
  have hpost : Refers thread "post" "user" :=
    ⟨"author_id", "id", _, rfl, _, List.mem_singleton_self _, rfl, _, rfl, rfl, rfl⟩
  have hcomment : Refers thread "comment" "post" :=
    ⟨"post_id", "id", _, rfl, _, List.mem_singleton_self _, rfl, _, rfl, rfl, rfl⟩
  have hconnected : Connected thread "user" "comment" := by
    refine ⟨["user", "post", "comment"], rfl, rfl, by decide, ?_⟩
    exact .cons_cons (.inr hpost) (.cons_cons (.inr hcomment) (.singleton _))
  obtain ⟨hfound, hback⟩ := find?_complete [] [] (by decide : "user" ∈ thread.map Table.name)
  have hpath := (hfound (by decide)).2 hconnected
  exact ⟨by decide, by decide, by decide, hpath, (hback (by decide)).1 hpath⟩

end Path

end ErDiagram
