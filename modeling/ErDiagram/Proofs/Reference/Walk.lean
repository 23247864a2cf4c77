import ErDiagram.Reference.Path

/-!
# What the searches find is a walk

`Walk moves base` says of a list of moves, the last first, that they lead away from `base` one after
the other.  Both searches hold nothing but walks in their list of trails, and they only go on from
nodes, so what they return is the list of the moves of a walk from the base to the target that goes
to nodes alone (`walk_of_depthFirst`, `walk_of_breadthFirst`).  For the graph of references this
says where a path starts (`Path.start_of_find?`), that each of its hops leaves a table by one of
that table's moves and leads to a declared table (`Path.walk_of_find?`), and that the hops follow
each other (`Path.follows_of_find?`).

A walk is given with its last move first, as a trail is, so that going on from a walk is adding one
move in front and the induction on walks goes along with the steps of the searches.  The hops of a
path stand the other way round, and what follows from a walk for the path as it stands is
`Path.Follows`: each hop is a move from its own table to the table where the next one starts.  The
two are brought together once (`Path.follows_of_walk`), and later proofs use the one that has the
end they begin from.
-/

set_option autoImplicit false

namespace ErDiagram

namespace Search

variable {ν σ : Type} {moves : ν → List (σ × ν)} {base : ν}

/-- The moves in a list, the last first, lead from `base` to a node. -/
inductive Walk (moves : ν → List (σ × ν)) (base : ν) : List σ → ν → Prop
  | nil : Walk moves base [] base
  | cons {path : List σ} {n m : ν} {s : σ} (h : Walk moves base path n) (hs : (s, m) ∈ moves n) :
      Walk moves base (s :: path) m

theorem Walk.mono {moves' : ν → List (σ × ν)} (hsub : ∀ n, moves n ⊆ moves' n) {path : List σ}
    {n : ν} (h : Walk moves base path n) : Walk moves' base path n := by
  induction h with
  | nil => exact .nil
  | cons _ hs ih => exact .cons ih (hsub _ hs)

variable [DecidableEq ν]

/-- The moves that lead to a node. -/
def within (nodes : List ν) (moves : ν → List (σ × ν)) (n : ν) : List (σ × ν) :=
  (moves n).filter (·.2 ∈ nodes)

theorem mem_within {nodes : List ν} {n : ν} {m : σ × ν} :
    m ∈ within nodes moves n ↔ m ∈ moves n ∧ m.2 ∈ nodes := by
  rw [within, List.mem_filter, decide_eq_true_iff]

theorem within_subset (nodes : List ν) (moves : ν → List (σ × ν)) (n : ν) :
    within nodes moves n ⊆ moves n := List.filter_sublist.subset

/-- The trails that go on from a walk lead along walks, if they lead to nodes. -/
theorem walk_of_mem_extend {nodes : List ν} {t u : Trail ν σ} {ms : List (σ × ν)}
    (ht : Walk (within nodes moves) base t.1 t.2) (hms : ms ⊆ moves t.2) (hu : u ∈ t.extend ms)
    (hnode : u.2 ∈ nodes) : Walk (within nodes moves) base u.1 u.2 := by
  obtain ⟨m, hm, rfl⟩ := List.mem_map.1 hu
  exact .cons ht (mem_within.2 ⟨hms hm, hnode⟩)

theorem fresh_subset (nodes seen : List ν) (ms : List (σ × ν)) : fresh nodes seen ms ⊆ ms := by
  induction ms generalizing seen with
  | nil => exact List.Subset.refl _
  | cons m ms ih =>
    rw [fresh]
    split
    · exact List.cons_subset_cons m (ih _)
    · exact List.subset_cons_of_subset m (ih _)

theorem new_of_mem_fresh {nodes seen : List ν} {ms : List (σ × ν)} {m : σ × ν}
    (h : m ∈ fresh nodes seen ms) : m.2 ∈ nodes ∧ m.2 ∉ seen := by
  induction ms generalizing seen with
  | nil => cases h
  | cons k ks ih =>
    rw [fresh] at h
    split at h
    · next hk =>
      rcases List.mem_cons.1 h with rfl | h
      · exact hk
      · exact ⟨(ih h).1, fun hm ↦ (ih h).2 (List.mem_cons_of_mem _ hm)⟩
    · exact ih h

/-- Depth-first search follows walks only, and goes on from nodes only. -/
theorem walk_of_depthFirst {nodes seen : List ν} {target : ν} {todo : List (Trail ν σ)}
    {path : List σ} (htodo : ∀ t ∈ todo, t.2 ∈ nodes → Walk (within nodes moves) base t.1 t.2)
    (h : depthFirst nodes moves target seen todo = some path) :
    Walk (within nodes moves) base path.reverse target := by
  fun_induction depthFirst nodes moves target seen todo with
  | case1 => cases h
  | case2 seen t todo hnode heq =>
    obtain rfl := Option.some.inj h
    rw [List.reverse_reverse, ← heq]
    exact htodo t List.mem_cons_self hnode.1
  | case3 seen t todo hnode _ ih =>
    refine ih (fun u hu hunode ↦ ?_) h
    rcases List.mem_append.1 hu with hu | hu
    · have ht := htodo t List.mem_cons_self hnode.1
      exact walk_of_mem_extend ht (List.Subset.refl _) hu hunode
    · exact htodo u (List.mem_cons_of_mem _ hu) hunode
  | case4 seen t todo _ ih => exact ih (fun u hu ↦ htodo u (List.mem_cons_of_mem _ hu)) h

/-- Breadth-first search follows walks only, and goes to nodes only. -/
theorem walk_of_breadthFirst {nodes seen : List ν} {target : ν} {todo : List (Trail ν σ)}
    {path : List σ} (htodo : ∀ t ∈ todo, Walk (within nodes moves) base t.1 t.2)
    (h : breadthFirst nodes moves target seen todo = some path) :
    Walk (within nodes moves) base path.reverse target := by
  fun_induction breadthFirst nodes moves target seen todo with
  | case1 => cases h
  | case2 seen t todo heq =>
    obtain rfl := Option.some.inj h
    rw [List.reverse_reverse, ← heq]
    exact htodo t List.mem_cons_self
  | case3 seen t todo _ ih =>
    refine ih (fun u hu ↦ ?_) h
    rcases List.mem_append.1 hu with hu | hu
    · exact htodo u (List.mem_cons_of_mem _ hu)
    · obtain ⟨m, hm, rfl⟩ := List.mem_map.1 hu
      have hwithin := mem_within.2 ⟨fresh_subset _ _ _ hm, (new_of_mem_fresh hm).1⟩
      exact .cons (htodo t List.mem_cons_self) hwithin

end Search

open Search

/-! ## Walks over references

A hop knows the table that it starts from, so a list of hops is enough to say which tables a path
visits.  The moves of the search forwards are among the moves of the other one; a path that was
found by either is a walk over hops in both directions, to declared tables. -/

namespace ReferenceGraph

variable {g : ReferenceGraph} {columns : List Column} {table next : String} {h : Hop}

/-- The hops that lead away from a table, forwards and in reverse. -/
def hops (g : ReferenceGraph) (columns : List Column) (table : String) : List (Hop × String) :=
  g.forwardHops columns table ++ g.reverseHops columns table

theorem table_of_hop? {target : String} {reverse : Bool} {keys : List ForeignKey}
    (hh : g.hop? columns table target reverse keys = some h) : h.table = table := by
  obtain ⟨_, _, rfl⟩ := Option.map_eq_some_iff.1 hh
  rfl

/-- A hop forwards leads to a table that is referred to, along one of the foreign keys to it. -/
theorem mem_forwardHops : (h, next) ∈ g.forwardHops columns table ↔
    (∃ k ∈ g.foreignKeys table, k.reference.table = next) ∧
      g.hop? columns table next false (g.foreignKeysTo table next) = some h := by
  simp only [forwardHops, outgoing, List.filterMap_map, List.mem_filterMap, List.mem_eraseDups,
    List.mem_map, Function.comp_apply, Option.map_eq_some_iff, Prod.mk.injEq]
  constructor
  · rintro ⟨_, hk, _, hh, rfl, rfl⟩
    exact ⟨hk, hh⟩
  · rintro ⟨hk, hh⟩
    exact ⟨next, hk, h, hh, rfl, rfl⟩

/-- A hop in reverse leads to a table that refers to this one, along one of its foreign keys. -/
theorem mem_reverseHops : (h, next) ∈ g.reverseHops columns table ↔
    next ∈ g.referencedBy table ∧
      g.hop? columns table table true (g.foreignKeysTo next table) = some h := by
  simp only [reverseHops, incoming, List.filterMap_map, List.mem_filterMap, Function.comp_apply,
    Option.map_eq_some_iff, Prod.mk.injEq]
  constructor
  · rintro ⟨_, hk, _, hh, rfl, rfl⟩
    exact ⟨hk, hh⟩
  · rintro ⟨hk, hh⟩
    exact ⟨next, hk, h, hh, rfl, rfl⟩

theorem table_of_mem_hops (hm : (h, next) ∈ g.hops columns table) : h.table = table :=
  (List.mem_append.1 hm).elim (fun hf ↦ table_of_hop? (mem_forwardHops.1 hf).2)
    fun hr ↦ table_of_hop? (mem_reverseHops.1 hr).2

theorem walk_of_forwardSearch {base target : String} {path : List Hop}
    (h : g.forwardSearch columns base target = some path) :
    Walk (within g.names (g.forwardHops columns)) base path.reverse target :=
  walk_of_depthFirst (fun _ ↦ walk_of_mem_extend .nil (List.Subset.refl _)) h

theorem walk_of_undirectedSearch {base target : String} {path : List Hop}
    (h : g.undirectedSearch columns base target = some path) :
    Walk (within g.names (g.hops columns)) base path.reverse target :=
  walk_of_breadthFirst (fun t ht ↦ by rw [List.mem_singleton.1 ht]; exact .nil) h

end ReferenceGraph

namespace Path

variable {g : ReferenceGraph} {columns : List Column} {base target : String} {p : Path}

/-- The hops of a path are a walk over declared tables from the base to the target. -/
theorem walk_of_find? (h : find? g columns base target = some p) :
    p.last = target ∧ Walk (within g.names (g.hops columns)) base p.hops.reverse target := by
  rw [find?] at h
  split at h
  · next heq =>
    obtain rfl := Option.some.inj h
    exact ⟨rfl, heq ▸ .nil⟩
  · obtain ⟨hops, hh, rfl⟩ := Option.map_eq_some_iff.1 h
    refine ⟨rfl, ?_⟩
    rcases Option.or_eq_some_iff.1 hh with hh | ⟨_, hh⟩
    · refine (ReferenceGraph.walk_of_forwardSearch hh).mono fun n ↦ ?_
      exact List.filter_subset _ (List.subset_append_left _ _)
    · exact ReferenceGraph.walk_of_undirectedSearch hh

theorem start_of_walk {path : List Hop} {last : String}
    (h : Walk (g.hops columns) base path last) : start path.reverse last = base := by
  induction h with
  | nil => rfl
  | @cons path n m s hw hs ih =>
    rw [List.reverse_cons]
    cases hr : path.reverse with
    | nil =>
      rw [hr] at ih
      exact (ReferenceGraph.table_of_mem_hops hs).trans ih
    | cons k ks =>
      rw [hr] at ih
      exact ih

theorem start_of_find? (h : find? g columns base target = some p) :
    start p.hops p.last = base := by
  obtain ⟨rfl, hw⟩ := walk_of_find? h
  simpa using start_of_walk (hw.mono (within_subset _ _))

end Path

/-! ## The hops of a path, from the first to the last

What a walk says of a path in the order of its hops, and what that means for the hop at a position:
it is a move from the table at this position to the table at the next. -/

namespace Path

variable {moves : String → List (Hop × String)} {last : String}

/-- Each hop is a move from its table to the table where the next hop starts, or to the last. -/
def Follows (moves : String → List (Hop × String)) (last : String) : List Hop → Prop
  | [] => True
  | h :: hops => (h, start hops last) ∈ moves h.table ∧ Follows moves last hops

theorem start_concat (hops : List Hop) (h : Hop) (last : String) :
    start (hops ++ [h]) last = start hops h.table := by
  cases hops <;> rfl

theorem follows_concat {hops : List Hop} {h : Hop} : Follows moves last (hops ++ [h]) ↔
    Follows moves h.table hops ∧ (h, last) ∈ moves h.table := by
  induction hops with
  | nil => simp [Follows, start]
  | cons k hops ih => rw [List.cons_append, Follows, Follows, start_concat, ih, and_assoc]

theorem Follows.mono {moves' : String → List (Hop × String)} (hsub : ∀ n, moves n ⊆ moves' n)
    {hops : List Hop} (h : Follows moves last hops) : Follows moves' last hops := by
  induction hops with
  | nil => trivial
  | cons k hops ih => exact ⟨hsub _ h.1, ih h.2⟩

/-- The hops of a walk follow each other. -/
theorem follows_of_walk (htable : ∀ n, ∀ m ∈ moves n, m.1.table = n) {base n : String}
    {path : List Hop} (h : Walk moves base path n) : Follows moves n path.reverse := by
  induction h with
  | nil => trivial
  | @cons path n m s _ hs ih =>
    rw [List.reverse_cons, follows_concat, htable n (s, m) hs]
    exact ⟨ih, hs⟩

section

variable {g : ReferenceGraph} {columns : List Column} {base target : String} {p : Path}

/-- The hops of a path follow each other to declared tables. -/
theorem follows_within_of_find? (h : find? g columns base target = some p) :
    Follows (within g.names (g.hops columns)) p.last p.hops := by
  obtain ⟨rfl, hw⟩ := walk_of_find? h
  have := follows_of_walk
    (fun _ _ hm ↦ ReferenceGraph.table_of_mem_hops (within_subset _ _ _ hm)) hw
  rwa [List.reverse_reverse] at this

theorem follows_of_find? (h : find? g columns base target = some p) :
    Follows (g.hops columns) p.last p.hops :=
  (follows_within_of_find? h).mono (within_subset _ _)

end

/-- The tables of a path. -/
def tables (p : Path) : List String := p.hops.map Hop.table ++ [p.last]

theorem getElem?_zero_tables (hops : List Hop) (last : String) :
    (hops.map Hop.table ++ [last])[0]? = some (start hops last) := by
  cases hops <;> rfl

/-- The hop at a position is a move from the table there to the next. -/
theorem exists_move_of_follows {hops : List Hop} {h : Hop} {i : Nat}
    (hfollows : Follows moves last hops) (hh : hops[i]? = some h) :
    (hops.map Hop.table ++ [last])[i]? = some h.table ∧
      ∃ next, (hops.map Hop.table ++ [last])[i + 1]? = some next ∧ (h, next) ∈ moves h.table := by
  induction hops generalizing i with
  | nil => cases hh
  | cons k hops ih =>
    cases i with
    | zero =>
      obtain rfl := Option.some.inj hh
      exact ⟨rfl, _, getElem?_zero_tables hops last, hfollows.1⟩
    | succ i => exact ih hfollows.2 hh

end Path

end ErDiagram
