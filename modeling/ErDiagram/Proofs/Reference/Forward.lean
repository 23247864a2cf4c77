import ErDiagram.Proofs.Reference.Connected
import ErDiagram.Proofs.Reference.FirstWay

/-!
# The path forwards is the first route

A `Table.IsRoute` is a chain of declared tables of which each refers to the next.  Of two routes
with a common beginning one `Table.TurnsEarlier`: where they part, it goes on to the table that an
earlier field refers to.  If any route leads from a table to another, `Path.find?` takes the one
that visits no table twice and turns earlier than all others that do so; if there is none, the
search forwards finds nothing (`Path.find?_forward`).

The moves of the search are the hops forwards, in the order in which the tables that are referred to
come up among the fields (`ReferenceGraph.firstReference_lt_of_sublist`), so the first way along
hops is the first route.

That the path is the first route has two halves.  Routes are ways: if a route visits no table twice,
it is a way along hops, and the other way round (`isRoute_of_isWay`, `exists_isWay_of_isRoute`).
And the order is the same: of two hops the first goes to the table that an earlier field refers to,
even though the foreign keys of a table are grouped by their targets.

A route that visits a table twice is a route all the same, and there may be no others to begin with.
If there is any, there is one without repetitions; this is not shown by cutting pieces out of it,
but seen from a search that fails: the tables it has seen are closed under hops, and no route leads
out of them (`mem_of_isRoute`).
-/

set_option autoImplicit false

namespace ErDiagram

open Search

/-! ## Routes over references

Routes and their order, said of the declarations alone.  The order compares the positions of fields
in the table where two routes part, so of two different routes that visit no table twice just one
turns earlier. -/

namespace Table

variable {tables : List Table} {source target : String} {route : List String}

/-- Declared tables of which each refers to the next lead from one table to another. -/
structure IsRoute (tables : List Table) (source target : String) (route : List String) : Prop where
  /-- The first table. -/
  head : route.head? = some source
  /-- The last table. -/
  last : route.getLast? = some target
  /-- All tables are declared. -/
  declared : ∀ n ∈ route, n ∈ tables.map Table.name
  /-- Each table refers to the next. -/
  refers : route.IsChain (Refers tables)

/-- The number of fields of a table before the first that refers to another one. -/
def firstReference (tables : List Table) (source target : String) : Nat :=
  (((find? tables source).map Table.fields).getD []).findIdx
    (·.reference.map Reference.table == some target)

/-- Of two routes with a common beginning, the first goes on to the table that an earlier field
refers to. -/
inductive TurnsEarlier (tables : List Table) : List String → List String → Prop
  | turn {n a b : String} {as bs : List String}
      (h : firstReference tables n a < firstReference tables n b) :
      TurnsEarlier tables (n :: a :: as) (n :: b :: bs)
  | step {n : String} {as bs : List String} (h : TurnsEarlier tables as bs) :
      TurnsEarlier tables (n :: as) (n :: bs)

/-- The route that visits no table twice and turns earlier than all others that do so. -/
structure IsFirstRoute (tables : List Table) (source target : String) (route : List String) : Prop
    extends IsRoute tables source target route where
  /-- No table is visited twice. -/
  nodup : route.Nodup
  /-- Every other such route turns later. -/
  earliest : ∀ other, IsRoute tables source target other → other.Nodup →
    other = route ∨ TurnsEarlier tables route other

theorem Refers.declared (h : Refers tables source target) : source ∈ tables.map Table.name := by
  obtain ⟨_, _, t, ht, -⟩ := h
  obtain ⟨hmem, rfl⟩ := name_of_find? ht
  exact List.mem_map_of_mem hmem

theorem isRoute_singleton {n : String} :
    IsRoute tables n target [n] ↔ n = target ∧ n ∈ tables.map Table.name := by
  constructor
  · intro h
    exact ⟨Option.some.inj h.last, h.declared n List.mem_cons_self⟩
  · rintro ⟨rfl, hn⟩
    exact ⟨rfl, rfl, List.forall_mem_singleton.2 hn, .singleton _⟩

theorem isRoute_cons_cons {n m : String} :
    IsRoute tables n target (n :: m :: route) ↔
      n ∈ tables.map Table.name ∧ Refers tables n m ∧ IsRoute tables m target (m :: route) := by
  constructor
  · intro h
    obtain ⟨hn, hdeclared⟩ := List.forall_mem_cons.1 h.declared
    obtain ⟨hrefers, hchain⟩ := List.isChain_cons_cons.1 h.refers
    exact ⟨hn, hrefers, rfl, h.last, hdeclared, hchain⟩
  · rintro ⟨hn, hrefers, h⟩
    exact ⟨rfl, h.last, List.forall_mem_cons.2 ⟨hn, h.declared⟩, .cons_cons hrefers h.refers⟩

/-- From a table without references no route leads on to another. -/
theorem not_exists_isRoute {t : Table} (ht : find? tables source = some t)
    (hnone : t.references = []) (hne : source ≠ target) :
    ¬ ∃ route, IsRoute tables source target route := by
  rintro ⟨route, h⟩
  obtain ⟨route, rfl⟩ := List.head?_eq_some_iff.1 h.head
  cases route with
  | nil => exact hne (isRoute_singleton.1 h).1
  | cons n route =>
    obtain ⟨_, _, u, hu, f, hf, -, r, hr, -⟩ := (isRoute_cons_cons.1 h).2.1
    obtain rfl := Option.some.inj (ht.symm.trans hu)
    have hmem : f ∈ t.references := List.mem_filter.2 ⟨hf, by rw [hr]; rfl⟩
    exact List.not_mem_nil (hnone ▸ hmem)

theorem TurnsEarlier.asymm {as bs : List String} (h : TurnsEarlier tables as bs) :
    ¬ TurnsEarlier tables bs as := by
  induction h with
  | turn h =>
    intro h'
    cases h' with
    | turn h' => exact Nat.lt_asymm h h'
    | step h' =>
      cases h' <;> exact Nat.lt_irrefl _ h
  | step h ih =>
    intro h'
    cases h' with
    | turn h' => cases h <;> exact Nat.lt_irrefl _ h'
    | step h' => exact ih h'

/-- There is only one first route. -/
theorem IsFirstRoute.unique {route' : List String} (h : IsFirstRoute tables source target route)
    (h' : IsFirstRoute tables source target route') : route = route' := by
  rcases h.earliest route' h'.toIsRoute h'.nodup with heq | hearlier
  · exact heq.symm
  · rcases h'.earliest route h.toIsRoute h.nodup with heq | hearlier'
    · exact heq
    · exact absurd hearlier' hearlier.asymm

/-! ### The order of references

The targets of a table are listed in the order in which they first come up among its fields.  Of two
targets the first to come up is the one with the earlier field, which is a fact about lists without
their repetitions. -/

/-- Of two entries of a list without its repetitions, the first comes up before the second. -/
theorem exists_append_of_sublist_eraseDups {a b : String} (l : List String)
    (h : [a, b].Sublist l.eraseDups) : ∃ pre post, l = pre ++ a :: post ∧ b ∉ a :: pre := by
  match l with
  | [] => simp at h
  | c :: cs =>
    rw [List.eraseDups_cons] at h
    cases h with
    | cons_cons _ h =>
      have hb := List.mem_eraseDups.1 (List.singleton_sublist.1 h)
      exact ⟨[], cs, rfl, by simpa using (List.mem_filter.1 hb).2⟩
    | cons _ h =>
      have hb := List.mem_eraseDups.1 (h.subset (List.mem_cons_of_mem _ List.mem_cons_self))
      have hbc : b ≠ c := by simpa using (List.mem_filter.1 hb).2
      -- the induction is on the tail without the head, which is put back into its split
      obtain ⟨pre, post, hsplit, hpre⟩ := exists_append_of_sublist_eraseDups _ h
      obtain ⟨cs₁, cs₂, rfl, rfl, hcs₂⟩ := List.filter_eq_append_iff.1 hsplit
      obtain ⟨cs₃, cs₄, rfl, hcs₃, _, rfl⟩ := List.filter_eq_cons_iff.1 hcs₂
      refine ⟨c :: cs₁ ++ cs₃, cs₄, by simp, fun hmem ↦ ?_⟩
      rcases List.mem_cons.1 hmem with rfl | hmem
      · exact hpre List.mem_cons_self
      · rcases List.mem_append.1 hmem with hmem | hmem
        · have hcs₁ := (List.mem_cons.1 hmem).resolve_left hbc
          exact hpre (List.mem_cons_of_mem _ (List.mem_filter.2 ⟨hcs₁, by simpa using hbc⟩))
        · exact hcs₃ b hmem (by simpa using hbc)
  termination_by l.length
  decreasing_by exact Nat.lt_succ_of_le (List.length_filter_le _ _)

theorem findIdx_lt_findIdx {α : Type} {p q : α → Bool} {xs ys : List α} {x : α} (hx : p x = true)
    (hq : ∀ y ∈ xs ++ [x], q y = false) :
    (xs ++ x :: ys).findIdx p < (xs ++ x :: ys).findIdx q := by
  induction xs with
  | nil =>
    have := hq x (by simp)
    simp [List.findIdx_cons, hx, this]
  | cons z zs ih =>
    obtain ⟨hz, hzs⟩ := List.forall_mem_cons.1 hq
    have := ih hzs
    rw [List.cons_append, List.findIdx_cons, List.findIdx_cons, hz]
    cases p z with
    | true => exact Nat.succ_pos _
    | false => exact Nat.succ_lt_succ this

/-- Values come up in the order of the first items that have them. -/
theorem findIdx_lt_of_sublist_eraseDups {α : Type} {p : α → Option String} {xs : List α}
    {a b : String} (h : [a, b].Sublist (xs.filterMap p).eraseDups) :
    xs.findIdx (p · == some a) < xs.findIdx (p · == some b) := by
  obtain ⟨pre, post, hsplit, hb⟩ := exists_append_of_sublist_eraseDups _ h
  obtain ⟨xs₁, xs₂, rfl, rfl, hxs₂⟩ := List.filterMap_eq_append_iff.1 hsplit
  obtain ⟨xs₃, x, xs₄, rfl, hxs₃, hx, -⟩ := List.filterMap_eq_cons_iff.1 hxs₂
  rw [← List.append_assoc]
  refine findIdx_lt_findIdx (by simpa using hx) fun y hy ↦ beq_eq_false_iff_ne.2 fun hyb ↦ ?_
  rcases List.mem_append.1 hy with hy | hy
  · rcases List.mem_append.1 hy with hy | hy
    · exact hb (List.mem_cons_of_mem _ (List.mem_filterMap.2 ⟨y, hy, hyb⟩))
    · cases (hxs₃ y hy).symm.trans hyb
  · rw [List.mem_singleton.1 hy, hx] at hyb
    exact hb (List.mem_cons.2 (.inl (Option.some.inj hyb).symm))

end Table

namespace ReferenceGraph

open Table

variable {tables : List Table} {columns : List Column} {table base target : String}
  {way : List (Hop × String)} {seen : List String}

/-- The hops forwards lead to all tables that are referred to, in the order in which these come
up. -/
theorem map_snd_forwardHops (g : ReferenceGraph) (columns : List Column) (table : String) :
    (g.forwardHops columns table).map Prod.snd =
      ((g.foreignKeys table).map (·.reference.table)).eraseDups := by
  rw [forwardHops, outgoing, List.filterMap_map, List.map_filterMap]
  refine (List.filterMap_congr (g := some) fun next hnext ↦ ?_).trans List.filterMap_some
  obtain ⟨k, hk, hto⟩ := List.mem_map.1 (List.mem_eraseDups.1 hnext)
  have hkeys : k ∈ g.foreignKeysTo table next := List.mem_filter.2 ⟨hk, by simpa using hto⟩
  obtain ⟨k', hk'⟩ := isSome_preferred? g next columns hkeys
  simp [hop?, hk']

/-- A hop that comes before another goes along an earlier field. -/
theorem firstReference_lt_of_sublist {a b : String}
    (h : [a, b].Sublist (((ofTables tables).forwardHops columns table).map Prod.snd)) :
    firstReference tables table a < firstReference tables table b := by
  rw [map_snd_forwardHops, map_table_foreignKeys_ofTables] at h
  exact findIdx_lt_of_sublist_eraseDups h

/-! ### Ways along hops are routes

A way along hops visits the tables that its hops lead to; the table it starts from is put in front
of them. -/

theorem turnsEarlier_of_earlier {as bs : List String}
    (h : Earlier ((ofTables tables).forwardHops columns)
      ((ofTables tables).forwardHops columns table) as bs) :
    TurnsEarlier tables (table :: as) (table :: bs) := by
  generalize hchoices : (ofTables tables).forwardHops columns table = choices at h
  induction h generalizing table with
  | turn h => exact .turn (firstReference_lt_of_sublist (hchoices ▸ h))
  | step _ ih => exact .step (ih rfl)

theorem refers_of_mem_forwardHops {m : Hop × String}
    (hm : m ∈ (ofTables tables).forwardHops columns table) : Refers tables table m.2 :=
  ⟨_, _, (declares_of_mem_forwardHops hm).2⟩

theorem isRoute_of_isWay (htable : table ∈ tables.map Table.name)
    (h : IsWay (ofTables tables).names ((ofTables tables).forwardHops columns) target
      ((ofTables tables).forwardHops columns table) seen way) :
    IsRoute tables table target (table :: way.map Prod.snd) := by
  generalize hchoices : (ofTables tables).forwardHops columns table = choices at h
  induction h generalizing table with
  | last hm hnode _ ht =>
    exact isRoute_cons_cons.2 ⟨htable, refers_of_mem_forwardHops (hchoices ▸ hm),
      isRoute_singleton.2 ⟨ht, mem_names_ofTables.1 hnode⟩⟩
  | cons hm hnode _ _ _ ih =>
    exact isRoute_cons_cons.2 ⟨htable, refers_of_mem_forwardHops (hchoices ▸ hm),
      ih (mem_names_ofTables.1 hnode) rfl⟩

theorem exists_isWay_of_isRoute (columns : List Column) {route : List String}
    (h : IsRoute tables table target (table :: route)) (hne : table ≠ target) (hnodup : route.Nodup)
    (hseen : ∀ n ∈ route, n ∉ seen) :
    ∃ way, way.map Prod.snd = route ∧
      IsWay (ofTables tables).names ((ofTables tables).forwardHops columns) target
        ((ofTables tables).forwardHops columns table) seen way := by
  induction route generalizing table seen with
  | nil => exact absurd (isRoute_singleton.1 h).1 hne
  | cons n route ih =>
    obtain ⟨-, hrefers, hroute⟩ := isRoute_cons_cons.1 h
    obtain ⟨hop, hhop⟩ := exists_hop? columns table false hrefers
    have hm : (hop, n) ∈ (ofTables tables).forwardHops columns table :=
      mem_forwardHops.2 ⟨exists_mem_foreignKeys_iff.2 hrefers, hhop⟩
    have hnode := mem_names_ofTables.2 (hroute.declared n List.mem_cons_self)
    obtain ⟨hnew, hrest⟩ := List.forall_mem_cons.1 hseen
    obtain ⟨hn, hnodup⟩ := List.nodup_cons.1 hnodup
    by_cases ht : n = target
    · -- the target does not come twice
      cases route with
      | nil => exact ⟨[(hop, n)], rfl, .last hm hnode hnew ht⟩
      | cons k route => exact absurd (ht ▸ List.mem_of_getLast? hroute.last) hn
    · have hrest' : ∀ k ∈ route, k ∉ n :: seen := fun k hk ↦
        List.not_mem_cons_of_ne_of_not_mem (ne_of_mem_of_not_mem hk hn) (hrest k hk)
      obtain ⟨way, rfl, hway⟩ := ih hroute ht hnodup hrest'
      exact ⟨(hop, n) :: way, rfl, .cons hm hnode hnew ht hway⟩

/-! ### The first way is the first route

A way carries its hops, a route does not.  The tables that the hops start from are the route without
its end, and all hops are forwards, so of the path nothing is left to be shown but its order. -/

/-- The tables on a way, in order: those that its hops start from, and the target. -/
theorem map_table_of_isWay
    (h : IsWay (ofTables tables).names ((ofTables tables).forwardHops columns) target
      ((ofTables tables).forwardHops columns table) seen way) :
    (way.map Prod.fst).map Hop.table ++ [target] = table :: way.map Prod.snd := by
  generalize hchoices : (ofTables tables).forwardHops columns table = choices at h
  induction h generalizing table with
  | @last _ _ m hm _ _ ht =>
    have htable : m.1.table = table := table_of_hop? (mem_forwardHops.1 (hchoices ▸ hm)).2
    simp [htable, ht]
  | @cons _ _ m _ hm _ _ _ _ ih =>
    have htable : m.1.table = table := table_of_hop? (mem_forwardHops.1 (hchoices ▸ hm)).2
    simp only [List.map_cons, List.cons_append, htable, ih rfl]

theorem reverse_of_isWay
    (h : IsWay (ofTables tables).names ((ofTables tables).forwardHops columns) target
      ((ofTables tables).forwardHops columns table) seen way) :
    ∀ h ∈ way.map Prod.fst, h.reverse = false := by
  generalize hchoices : (ofTables tables).forwardHops columns table = choices at h
  induction h generalizing table with
  | last hm =>
    exact List.forall_mem_singleton.2 (declares_of_mem_forwardHops (hchoices ▸ hm)).1
  | cons hm _ _ _ _ ih =>
    exact List.forall_mem_cons.2 ⟨(declares_of_mem_forwardHops (hchoices ▸ hm)).1, ih rfl⟩

/-- The tables of the first way are the first route. -/
theorem isFirstRoute_of_isFirstWay (hbase : base ∈ tables.map Table.name) (hne : base ≠ target)
    (h : IsFirstWay (ofTables tables).names ((ofTables tables).forwardHops columns) target
      ((ofTables tables).forwardHops columns base) [base] way) :
    IsFirstRoute tables base target (base :: way.map Prod.snd) := by
  obtain ⟨hseen, hnodup⟩ := h.isWay.nodup
  refine ⟨isRoute_of_isWay hbase h.isWay, List.nodup_cons.2 ⟨fun hmem ↦ ?_, hnodup⟩,
    fun other hother hother' ↦ ?_⟩
  · exact hseen base hmem List.mem_cons_self
  · obtain ⟨route, rfl⟩ := List.head?_eq_some_iff.1 hother.head
    obtain ⟨hbase', hroute⟩ := List.nodup_cons.1 hother'
    have hseen : ∀ n ∈ route, n ∉ [base] := fun n hn hmem ↦ hbase' (List.mem_singleton.1 hmem ▸ hn)
    obtain ⟨way', rfl, hway'⟩ := exists_isWay_of_isRoute columns hother hne hroute hseen
    exact (h.earliest way' hway').imp (congrArg _) turnsEarlier_of_earlier

/-! ### Where there is no route

If the search forwards finds nothing, what it has seen is closed under hops.  A route that starts
there stays there, step by step, and so it never comes to the target, whether it visits tables twice
or not. -/

/-- The search forwards takes the first way, or it has seen tables that are closed under hops. -/
theorem forwardSearch_cases (columns : List Column) (hne : base ≠ target) (g : ReferenceGraph) :
    (∃ way, IsFirstWay g.names (g.forwardHops columns) target (g.forwardHops columns base) [base]
        way ∧
      g.forwardSearch columns base target = some (way.map Prod.fst)) ∨
    g.forwardSearch columns base target = none ∧ ∃ closed,
      base ∈ closed ∧ target ∉ closed ∧ Closed g.names (g.forwardHops columns) closed := by
  have ht : target ∉ [base] := fun hmem ↦ hne (List.mem_singleton.1 hmem).symm
  have hexplores := explores_depthFirst g.names (g.forwardHops columns) [base] ht ([], base)
    (g.forwardHops columns base) []
  rw [forwardSearch]
  rw [← List.append_nil (Trail.extend _ _)]
  cases hexplores with
  | found hway heq => exact .inl ⟨_, hway, heq⟩
  | @exhausted seen' h heq =>
    refine .inr ⟨heq.trans (by rw [depthFirst]), seen', h.subset List.mem_cons_self, h.target, ?_⟩
    intro n hn m hm
    obtain ⟨hm, hnode⟩ := mem_within.1 hm
    rcases h.closed n hn with hbase | hmoves
    · rw [List.mem_singleton.1 hbase] at hm
      exact h.choices m hm hnode
    · exact hmoves m hm hnode

/-- No route leads out of tables that are closed under hops. -/
theorem mem_of_isRoute {closed route : List String}
    (hclosed : Closed (ofTables tables).names ((ofTables tables).forwardHops columns) closed)
    (hbase : base ∈ closed) (h : IsRoute tables base target route) : target ∈ closed := by
  obtain ⟨route, rfl⟩ := List.head?_eq_some_iff.1 h.head
  induction route generalizing base with
  | nil => exact (isRoute_singleton.1 h).1 ▸ hbase
  | cons n route ih =>
    obtain ⟨-, hrefers, hroute⟩ := isRoute_cons_cons.1 h
    obtain ⟨hop, hhop⟩ := exists_hop? columns base false hrefers
    have hm : (hop, n) ∈ (ofTables tables).forwardHops columns base :=
      mem_forwardHops.2 ⟨exists_mem_foreignKeys_iff.2 hrefers, hhop⟩
    have hnode := mem_names_ofTables.2 (hroute.declared n List.mem_cons_self)
    exact ih (hclosed base hbase (hop, n) (mem_within.2 ⟨hm, hnode⟩)) hroute

/-- **The search forwards finds the first route**, or there is none. -/
theorem forwardSearch_route_cases (columns : List Column) (hne : base ≠ target) :
    (∃ hops, (ofTables tables).forwardSearch columns base target = some hops ∧
      IsFirstRoute tables base target (hops.map Hop.table ++ [target]) ∧
      ∀ h ∈ hops, h.reverse = false) ∨
    (ofTables tables).forwardSearch columns base target = none ∧
      ¬ ∃ route, IsRoute tables base target route := by
  rcases forwardSearch_cases columns hne (ofTables tables) with
    ⟨way, hway, hfound⟩ | ⟨hnone, closed, hbase, htarget, hclosed⟩
  · obtain ⟨m, -, hm, -⟩ := hway.isWay.exists_head
    have hfirst := isFirstRoute_of_isFirstWay (refers_of_mem_forwardHops hm).declared hne hway
    rw [← map_table_of_isWay hway.isWay] at hfirst
    exact .inl ⟨way.map Prod.fst, hfound, hfirst, reverse_of_isWay hway.isWay⟩
  · refine .inr ⟨hnone, ?_⟩
    rintro ⟨_, hroute⟩
    exact htarget (mem_of_isRoute hclosed hbase hroute)

end ReferenceGraph

namespace Path

open Table ReferenceGraph

variable {tables : List Table} {base target : String}

/-- **The path forwards is the first route.**  If tables that refer to each other lead from the base
to another table, the tables of the path that is found are the route that visits none twice and
turns earlier than all others that do so, and no hop is in reverse.  If none lead there, the search
forwards finds nothing. -/
theorem find?_forward (columns : List Column) (hne : base ≠ target) :
    ((∃ route, IsRoute tables base target route) →
      ∃ p, find? (ofTables tables) columns base target = some p ∧
        IsFirstRoute tables base target p.tables ∧ ∀ h ∈ p.hops, h.reverse = false) ∧
    ((¬ ∃ route, IsRoute tables base target route) →
      (ofTables tables).forwardSearch columns base target = none) := by
  rcases forwardSearch_route_cases columns hne with ⟨hops, hfound, hfirst, hreverse⟩ | ⟨hnone, hno⟩
  · refine ⟨fun _ ↦ ⟨⟨hops, target⟩, ?_, hfirst, hreverse⟩,
      fun hroute ↦ absurd ⟨_, hfirst.toIsRoute⟩ hroute⟩
    rw [find?, if_neg hne, hfound]
    rfl
  · exact ⟨fun hroute ↦ absurd hroute hno, fun _ ↦ hnone⟩

/-- A comment with a branch that comes to nothing before the way to the blog, and a shorter way
after it. -/
def detours : List Table :=
  let key (name table : String) : Field :=
    { name, modifiers := { fk := true }, reference := some { table } }
  [{ name := "comment", fields := [key "reply_id" "comment", key "author_id" "user",
      key "post_id" "post", key "blog_id" "blog"] },
   { name := "user", fields := [key "team_id" "team"] },
   { name := "team", fields := [key "owner_id" "user"] },
   { name := "post", fields := [key "editor_id" "user", key "blog_id" "blog"] },
   { name := "blog" }]

theorem isRoute_detours : IsRoute detours "comment" "blog" ["comment", "post", "blog"] :=
  ⟨rfl, rfl, by decide, by decide +kernel⟩

theorem find?_detours : find? (ofTables detours) [] "comment" "blog" =
    some ⟨[⟨"comment", "post_id", "id", false⟩, ⟨"post", "blog_id", "id", false⟩], "blog"⟩ := by
  have hnames : (ofTables detours).names = ["comment", "user", "team", "post", "blog"] := by
    decide +kernel
  have hcomment : (ofTables detours).forwardHops [] "comment" =
      [(⟨"comment", "reply_id", "id", false⟩, "comment"),
        (⟨"comment", "author_id", "id", false⟩, "user"),
        (⟨"comment", "post_id", "id", false⟩, "post"),
        (⟨"comment", "blog_id", "id", false⟩, "blog")] := by decide +kernel
  have huser : (ofTables detours).forwardHops [] "user" =
      [(⟨"user", "team_id", "id", false⟩, "team")] := by decide +kernel
  have hteam : (ofTables detours).forwardHops [] "team" =
      [(⟨"team", "owner_id", "id", false⟩, "user")] := by decide +kernel
  have hpost : (ofTables detours).forwardHops [] "post" =
      [(⟨"post", "editor_id", "id", false⟩, "user"),
        (⟨"post", "blog_id", "id", false⟩, "blog")] := by decide +kernel
  simp [find?, forwardSearch, depthFirst, Trail.extend, hnames, hcomment, huser, hteam, hpost]

/-- The way past the post comes first; from the blog there is none at all. -/
theorem find?_forward_detours :
    "comment" ≠ "blog" ∧ IsRoute detours "comment" "blog" ["comment", "post", "blog"] ∧
      IsFirstRoute detours "comment" "blog" ["comment", "post", "blog"] ∧
      (¬ ∃ route, IsRoute detours "blog" "comment" route) ∧
      (ofTables detours).forwardSearch [] "blog" "comment" = none := by
  have hnone : ¬ ∃ route, IsRoute detours "blog" "comment" route :=
    not_exists_isRoute rfl rfl (by decide)
  obtain ⟨p, hp, hfirst, -⟩ := (find?_forward [] (by decide)).1 ⟨_, isRoute_detours⟩
  obtain rfl := Option.some.inj (find?_detours.symm.trans hp)
  exact ⟨by decide, isRoute_detours, hfirst, hnone, (find?_forward [] (by decide)).2 hnone⟩

end Path

end ErDiagram
