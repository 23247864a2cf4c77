import ErDiagram.Proofs.Reference.Forward

/-!
# The path that may go in reverse is a shortest one

If no tables that refer to each other lead from the base to a table, `Path.find?` falls back on
breadth-first search, and no chain of linked tables from the base to that table has fewer tables
than the path that is found (`Path.find?_shortest`).

Three facts about the list of trails carry the proof.  It is `Search.Layered`: shorter trails come
first, and no two differ by more than one move.  Every node seen is yet to be followed or has all
its neighbours seen (`Search.Covers`).  And for every walk to the target some trail in the list is
`Search.Ahead` of it: it goes on to the target and is no longer in the end.  A step keeps all three,
because a walk that begins at a node seen runs into a node yet to be followed before it reaches the
target (`Search.exists_ahead_of_covers`).

The search is not compared with a chain as a whole.  A chain of linked tables gives a walk along
hops with one move for each table but the first (`exists_walk_of_isConnection`), and what is shown
of the search is a bound: if some trail in its list can be continued to the target with at most `k`
moves in all, then what it returns has at most `k` moves (`Search.length_le_of_breadthFirst`).  The
bound does not change while the search goes on, so the induction is the one of the search, and it
starts with a list of one empty trail, which any walk from the base continues.
-/

set_option autoImplicit false

namespace ErDiagram

namespace Search

variable {ν σ : Type} {moves : ν → List (σ × ν)} {n target : ν} {path : List σ}

/-! ## The first move of a walk

The moves of a walk stand with the last first; here a walk is taken apart at its other end. -/

theorem Walk.prepend {s : σ} {m : ν} (h : Walk moves m path target) (hs : (s, m) ∈ moves n) :
    Walk moves n (path ++ [s]) target := by
  induction h with
  | nil => exact .cons .nil hs
  | cons _ hs' ih => exact .cons ih hs'

/-- Behind the first move of a walk to another node fewer moves are left. -/
theorem Walk.exists_first (h : Walk moves n path target) (hne : n ≠ target) :
    ∃ m ∈ moves n, ∃ rest, Walk moves m.2 rest target ∧ rest.length < path.length := by
  induction h with
  | nil => exact absurd rfl hne
  | @cons path k l s h hs ih =>
    by_cases hk : n = k
    · exact ⟨(s, l), hk ▸ hs, [], .nil, Nat.succ_pos _⟩
    · obtain ⟨m, hm, rest, hrest, hlt⟩ := ih hk
      exact ⟨m, hm, s :: rest, .cons hrest hs, Nat.succ_lt_succ hlt⟩

/-! ## The trails that are yet to be followed

The three invariants and how a step keeps them.  If the first trail of the list is the one that was
ahead, its walk goes on by a move to a node that is seen after the step.  From there it runs into a
node yet to be followed, and the trail that leads to that one takes the place of the first.  It may
be a move longer, being in the same layer or the next, but then the walk has a move less before it.
-/

/-- Shorter trails come first, and none is longer than another by more than one move. -/
def Layered (todo : List (Trail ν σ)) : Prop :=
  todo.Pairwise fun t u ↦ t.1.length ≤ u.1.length ∧ u.1.length ≤ t.1.length + 1

/-- One of some trails goes on to the target and has at most `k` moves in the end. -/
def Ahead (moves : ν → List (σ × ν)) (target : ν) (todo : List (Trail ν σ)) (k : ℕ) : Prop :=
  ∃ t ∈ todo, ∃ rest, Walk moves t.2 rest target ∧ t.1.length + rest.length ≤ k

theorem length_of_mem_extend {t u : Trail ν σ} {ms : List (σ × ν)} (hu : u ∈ t.extend ms) :
    u.1.length = t.1.length + 1 := by
  obtain ⟨m, -, rfl⟩ := List.mem_map.1 hu
  rfl

/-- The trails that go on from the first one by one move may be put behind the others. -/
theorem Layered.step {t : Trail ν σ} {todo : List (Trail ν σ)} (h : Layered (t :: todo))
    (ms : List (σ × ν)) : Layered (todo ++ t.extend ms) := by
  obtain ⟨hfirst, hrest⟩ := List.pairwise_cons.1 h
  refine List.pairwise_append.2 ⟨hrest, List.pairwise_of_forall_mem_list fun u hu v hv ↦ ?_,
    fun u hu v hv ↦ ?_⟩
  · have hu := length_of_mem_extend hu
    have hv := length_of_mem_extend hv
    omega
  · have hu := hfirst u hu
    have hv := length_of_mem_extend hv
    omega

/-- No trail is longer than the first by more than one move, nor are those that go on from it. -/
theorem Layered.length_le {t u : Trail ν σ} {todo : List (Trail ν σ)} {ms : List (σ × ν)}
    (h : Layered (t :: todo)) (hu : u ∈ todo ++ t.extend ms) : u.1.length ≤ t.1.length + 1 := by
  rcases List.mem_append.1 hu with hu | hu
  · exact ((List.pairwise_cons.1 h).1 u hu).2
  · exact (length_of_mem_extend hu).le

variable [DecidableEq ν] {nodes seen : List ν} {todo : List (Trail ν σ)}

/-- A walk that begins at a node seen runs into one that is yet to be followed. -/
theorem exists_ahead_of_covers (hcovers : Covers nodes moves target seen todo) (hn : n ∈ seen)
    (hwalk : Walk (within nodes moves) n path target) :
    ∃ t ∈ todo, ∃ rest, Walk (within nodes moves) t.2 rest target ∧
      rest.length ≤ path.length := by
  induction hk : path.length using Nat.strong_induction_on generalizing n path with
  | _ k ih =>
    subst hk
    rcases hcovers n hn with htodo | ⟨hne, hmoves⟩
    · obtain ⟨t, ht, rfl⟩ := List.mem_map.1 htodo
      exact ⟨t, ht, path, hwalk, le_rfl⟩
    · obtain ⟨m, hm, rest, hrest, hlt⟩ := hwalk.exists_first hne
      obtain ⟨t, ht, rest', hrest', hle⟩ := ih _ hlt (hmoves m hm) hrest rfl
      exact ⟨t, ht, rest', hrest', hle.trans hlt.le⟩

/-- One step of breadth-first search. -/
theorem Ahead.step {t : Trail ν σ} {k : ℕ} (hlayered : Layered (t :: todo))
    (hcovers : Covers nodes moves target seen (t :: todo)) (hne : t.2 ≠ target)
    (h : Ahead (within nodes moves) target (t :: todo) k) :
    Ahead (within nodes moves) target (todo ++ t.extend (fresh nodes seen (moves t.2))) k := by
  obtain ⟨u, hu, rest, hrest, hle⟩ := h
  rcases List.mem_cons.1 hu with rfl | hu
  · obtain ⟨m, hm, rest', hrest', hlt⟩ := hrest.exists_first hne
    obtain ⟨hmove, hnode⟩ := mem_within.1 hm
    obtain ⟨v, hv, rest'', hrest'', hle'⟩ :=
      exists_ahead_of_covers (hcovers.step hne) (mem_fresh_or_seen hmove hnode) hrest'
    have hlength := hlayered.length_le hv
    exact ⟨v, hv, rest'', hrest'', by omega⟩
  · exact ⟨u, List.mem_append_left _ hu, rest, hrest, hle⟩

/-- **Breadth-first search finds a shortest way.** -/
theorem length_le_of_breadthFirst {k : ℕ} (hlayered : Layered todo)
    (hcovers : Covers nodes moves target seen todo)
    (hahead : Ahead (within nodes moves) target todo k)
    (h : breadthFirst nodes moves target seen todo = some path) : path.length ≤ k := by
  fun_induction breadthFirst nodes moves target seen todo with
  | case1 => cases h
  | case2 seen t todo heq =>
    obtain rfl := Option.some.inj h
    obtain ⟨u, hu, rest, -, hle⟩ := hahead
    rw [List.length_reverse]
    rcases List.mem_cons.1 hu with rfl | hu
    · omega
    · have hfirst := (List.pairwise_cons.1 hlayered).1 u hu
      omega
  | case3 seen t todo hne ih =>
    exact ih (hlayered.step _) (hcovers.step hne) (hahead.step hlayered hcovers hne) h

end Search

open Search

/-! ## Shortest chains of linked tables

The search for tables is a search along hops, and the number of tables on a chain is one more than
the number of moves. -/

namespace Table

variable {tables : List Table} {a b n m : String} {chain : List String}

/-- A chain of linked tables such that no other has fewer tables. -/
structure IsShortestConnection (tables : List Table) (a b : String) (chain : List String) : Prop
    extends IsConnection tables a b chain where
  /-- No other chain has fewer tables. -/
  shortest : ∀ other, IsConnection tables a b other → chain.length ≤ other.length

theorem isConnection_cons_cons (h : IsConnection tables a b (n :: m :: chain)) :
    a = n ∧ Linked tables n m ∧ m ∈ tables.map Table.name ∧
      IsConnection tables m b (m :: chain) := by
  obtain ⟨hlinked, hchain⟩ := List.isChain_cons_cons.1 h.linked
  have hdeclared := (List.forall_mem_cons.1 h.declared).2
  exact ⟨(Option.some.inj h.head).symm, hlinked, hdeclared m List.mem_cons_self, rfl, h.last,
    hdeclared, hchain⟩

end Table

namespace ReferenceGraph

open Table

variable {tables : List Table} {base target : String} {chain : List String}

/-- Along a chain of linked tables leads a walk. -/
theorem exists_walk_of_isConnection (columns : List Column)
    (h : IsConnection tables base target chain) :
    ∃ path, Walk (within (ofTables tables).names ((ofTables tables).hops columns)) base path
      target ∧ path.length + 1 = chain.length := by
  induction chain generalizing base with
  | nil => cases h.head
  | cons n chain ih =>
    cases chain with
    | nil =>
      obtain rfl := (Option.some.inj h.head).symm.trans (Option.some.inj h.last)
      exact ⟨[], .nil, rfl⟩
    | cons m chain =>
      obtain ⟨rfl, hlinked, hdeclared, hrest⟩ := isConnection_cons_cons h
      obtain ⟨hop, hhop⟩ := exists_mem_hops_iff.2 hlinked
      obtain ⟨path, hpath, hlength⟩ := ih hrest
      have hmove := mem_within.2 ⟨hhop, mem_names_ofTables.2 hdeclared⟩
      exact ⟨path ++ [hop], hpath.prepend hmove, by simpa using hlength⟩

/-- No walk to the target is shorter than the one that the search finds. -/
theorem length_le_of_undirectedSearch {g : ReferenceGraph} {columns : List Column}
    {hops path : List Hop} (hwalk : Walk (within g.names (g.hops columns)) base path target)
    (h : g.undirectedSearch columns base target = some hops) : hops.length ≤ path.length := by
  have hahead : Ahead (within g.names (g.hops columns)) target [([], base)] path.length :=
    ⟨_, List.mem_singleton_self _, path, hwalk, (Nat.zero_add _).le⟩
  exact length_le_of_breadthFirst (List.pairwise_singleton _ _) (covers_start base) hahead h

end ReferenceGraph

namespace Path

open Table ReferenceGraph

variable {tables : List Table} {columns : List Column} {base target : String} {p : Path}

/-- **The path that may go in reverse is a shortest one.**  If no tables that refer to each other
lead from the base to a table, the tables of the path that is found are a chain of linked tables,
and no such chain from the base to that table has fewer. -/
theorem find?_shortest (hbase : base ∈ tables.map Table.name)
    (hno : ¬ ∃ route, IsRoute tables base target route)
    (hp : find? (ofTables tables) columns base target = some p) :
    IsShortestConnection tables base target p.tables := by
  obtain ⟨hlast, hwalk⟩ := walk_of_find? hp
  have hchain := isConnection_of_walk hbase hwalk
  rw [← List.map_reverse, List.reverse_reverse, ← hlast] at hchain
  refine ⟨hlast ▸ hchain, fun other hother ↦ ?_⟩
  obtain ⟨path, hpath, hlength⟩ := exists_walk_of_isConnection columns hother
  have hne : base ≠ target := fun heq ↦ hno ⟨[base], isRoute_singleton.2 ⟨heq, hbase⟩⟩
  rw [find?, if_neg hne] at hp
  obtain ⟨hops, hfound, rfl⟩ := Option.map_eq_some_iff.1 hp
  rcases forwardSearch_route_cases columns hne with ⟨_, -, hfirst, -⟩ | ⟨hnone, -⟩
  · exact absurd ⟨_, hfirst.toIsRoute⟩ hno
  · rw [hnone, Option.none_or] at hfound
    have hle := length_le_of_undirectedSearch hpath hfound
    simp only [Path.tables, List.length_append, List.length_map, List.length_singleton]
    omega

/-- Users, their posts, and comments that refer to their posts and to their authors. -/
def signedComments : List Table :=
  [{ name := "user" },
   { name := "post", fields := [{ name := "author_id", reference := some { table := "user" } }] },
   { name := "comment", fields := [{ name := "post_id", reference := some { table := "post" } },
      { name := "author_id", reference := some { table := "user" } }] }]

/-- From the users to the comments the path leads straight, and not by way of the posts. -/
theorem find?_shortest_signedComments :
    "user" ∈ signedComments.map Table.name ∧
      (¬ ∃ route, IsRoute signedComments "user" "comment" route) ∧
      find? (ofTables signedComments) [] "user" "comment" =
        some ⟨[⟨"user", "author_id", "id", true⟩], "comment"⟩ ∧
      IsConnection signedComments "user" "comment" ["user", "post", "comment"] ∧
      IsShortestConnection signedComments "user" "comment" ["user", "comment"] := by
  have hno : ¬ ∃ route, IsRoute signedComments "user" "comment" route :=
    not_exists_isRoute rfl rfl (by decide)
  have hfound : find? (ofTables signedComments) [] "user" "comment" =
      some ⟨[⟨"user", "author_id", "id", true⟩], "comment"⟩ := by decide +kernel
  exact ⟨by decide, hno, hfound, ⟨rfl, rfl, by decide, by decide +kernel⟩,
    find?_shortest (by decide) hno hfound⟩

end Path

end ErDiagram
