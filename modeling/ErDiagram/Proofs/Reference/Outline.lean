import ErDiagram.Proofs.Reference.Sound

/-!
# What the chosen columns have to do with a path

The chosen columns have a say in which of several parallel foreign keys a path follows, and in
nothing else: the tables that it visits and the direction of each of its hops, its `Path.outline`,
are the same whichever columns are chosen, and so is whether there is a path at all.  Nor does it
matter in which order columns are chosen, or how often (`Path.find?_columns`).

A search looks at the nodes that moves lead to and never at their labels, so searching and then
relabelling is the same as searching along relabelled moves (`Search.map_depthFirst`,
`Search.map_breadthFirst`).  Of a hop only the table that it starts from and its direction are kept
as a label; the moves that are labelled so do not depend on the columns, and two searches with
different columns become one and the same.

Relabelling does not change which nodes are new, and so it changes nothing of what a search does.
Applied to hops it gives the outline of a path as the answer of a search of its own, along moves
that are labelled with a table and a direction.  That two lists of columns with the same members
lead to the same path needs no search: the columns are only ever asked whether one of them has some
property.
-/

set_option autoImplicit false

namespace ErDiagram

/-! ## Relabelled searches

Both searches are followed step by step.  A trail is relabelled by relabelling its moves; its node
stays what it is, and the node is all that the searches look at. -/

namespace Search

variable {ν σ τ : Type}

/-- Moves with other labels. -/
def relabel (f : σ → τ) (ms : List (σ × ν)) : List (τ × ν) := ms.map (Prod.map f id)

/-- A trail whose moves have other labels. -/
def Trail.relabel (f : σ → τ) (t : Trail ν σ) : Trail ν τ := (t.1.map f, t.2)

theorem Trail.fst_relabel (f : σ → τ) (t : Trail ν σ) : (t.relabel f).1 = t.1.map f := rfl

theorem Trail.snd_relabel (f : σ → τ) (t : Trail ν σ) : (t.relabel f).2 = t.2 := rfl

theorem Trail.map_relabel_extend (f : σ → τ) (t : Trail ν σ) (ms : List (σ × ν)) :
    (t.extend ms).map (Trail.relabel f) = (t.relabel f).extend (Search.relabel f ms) := by
  simp only [Trail.extend, Search.relabel, List.map_map]
  rfl

theorem map_snd_relabel (f : σ → τ) (ms : List (σ × ν)) :
    (relabel f ms).map Prod.snd = ms.map Prod.snd := by
  rw [relabel, List.map_map]
  rfl

variable [DecidableEq ν]

theorem fresh_relabel (f : σ → τ) (nodes seen : List ν) (ms : List (σ × ν)) :
    fresh nodes seen (relabel f ms) = relabel f (fresh nodes seen ms) := by
  induction ms generalizing seen with
  | nil => rfl
  | cons m ms ih =>
    rw [relabel, List.map_cons, ← relabel, fresh, fresh, ih, ih]
    simp only [Prod.map_snd, id]
    split <;> rfl

/-- Depth-first search does not look at labels. -/
theorem map_depthFirst (f : σ → τ) (nodes : List ν) (moves : ν → List (σ × ν)) (target : ν)
    (seen : List ν) (todo : List (Trail ν σ)) :
    (depthFirst nodes moves target seen todo).map (List.map f) =
      depthFirst nodes (fun n ↦ relabel f (moves n)) target seen
        (todo.map (Trail.relabel f)) := by
  fun_induction depthFirst nodes moves target seen todo with
  | case1 => rw [List.map_nil, depthFirst, Option.map_none]
  | case2 seen t todo hnew heq =>
    rw [List.map_cons, depthFirst, Trail.snd_relabel, if_pos hnew, if_pos heq, Option.map_some,
      List.map_reverse, Trail.fst_relabel]
  | case3 seen t todo hnew hne ih =>
    rw [ih, List.map_cons, depthFirst, Trail.snd_relabel, if_pos hnew, if_neg hne, List.map_append,
      Trail.map_relabel_extend]
  | case4 seen t todo hnew ih =>
    rw [ih, List.map_cons, depthFirst, Trail.snd_relabel, if_neg hnew]

/-- Breadth-first search does not look at labels. -/
theorem map_breadthFirst (f : σ → τ) (nodes : List ν) (moves : ν → List (σ × ν)) (target : ν)
    (seen : List ν) (todo : List (Trail ν σ)) :
    (breadthFirst nodes moves target seen todo).map (List.map f) =
      breadthFirst nodes (fun n ↦ relabel f (moves n)) target seen
        (todo.map (Trail.relabel f)) := by
  fun_induction breadthFirst nodes moves target seen todo with
  | case1 => rw [List.map_nil, breadthFirst, Option.map_none]
  | case2 seen t todo heq =>
    rw [List.map_cons, breadthFirst, Trail.snd_relabel, if_pos heq, Option.map_some,
      List.map_reverse, Trail.fst_relabel]
  | case3 seen t todo hne ih =>
    rw [ih, List.map_cons, breadthFirst, Trail.snd_relabel, if_neg hne, fresh_relabel,
      map_snd_relabel, List.map_append, Trail.map_relabel_extend]

end Search

open Search

/-! ## Hops without their foreign keys

The hops forwards from a table are one for each target, the hops in reverse one for each table that
refers to it.  Without their foreign keys these are lists of tables that the declarations alone
determine. -/

/-- The table that a hop starts from and whether it is followed in reverse. -/
def Hop.outline (h : Hop) : String × Bool := (h.table, h.reverse)

namespace ReferenceGraph

open Table

variable {tables : List Table} {columns columns' : List Column} {table base target : String}

theorem map_snd_reverseHops (tables : List Table) (columns : List Column) (table : String) :
    ((ofTables tables).reverseHops columns table).map Prod.snd =
      (ofTables tables).referencedBy table := by
  rw [reverseHops, incoming, List.filterMap_map, List.map_filterMap]
  refine (List.filterMap_congr (g := some) fun source hsource ↦ ?_).trans List.filterMap_some
  obtain ⟨h, hh⟩ := exists_hop? columns table true (mem_referencedBy_ofTables.1 hsource)
  simp [hh]

theorem relabel_outline {ms : List (Hop × String)} {reverse : Bool}
    (h : ∀ m ∈ ms, m.1.table = table ∧ m.1.reverse = reverse) :
    relabel Hop.outline ms = (ms.map Prod.snd).map fun next ↦ ((table, reverse), next) := by
  rw [relabel, List.map_map]
  refine List.map_congr_left fun m hm ↦ ?_
  obtain ⟨rfl, rfl⟩ := h m hm
  rfl

theorem relabel_forwardHops (tables : List Table) (columns : List Column) (table : String) :
    relabel Hop.outline ((ofTables tables).forwardHops columns table) =
      (((ofTables tables).foreignKeys table).map (·.reference.table)).eraseDups.map
        fun next ↦ ((table, false), next) := by
  rw [← map_snd_forwardHops]
  exact relabel_outline fun m hm ↦ ⟨table_of_hop? (mem_forwardHops.1 hm).2,
    (declares_of_mem_forwardHops hm).1⟩

theorem relabel_reverseHops (tables : List Table) (columns : List Column) (table : String) :
    relabel Hop.outline ((ofTables tables).reverseHops columns table) =
      ((ofTables tables).referencedBy table).map fun next ↦ ((table, true), next) := by
  rw [← map_snd_reverseHops]
  exact relabel_outline fun m hm ↦ ⟨table_of_hop? (mem_reverseHops.1 hm).2,
    (declares_of_mem_reverseHops hm).1⟩

theorem outline_forwardSearch (columns columns' : List Column) :
    ((ofTables tables).forwardSearch columns base target).map (List.map Hop.outline) =
      ((ofTables tables).forwardSearch columns' base target).map (List.map Hop.outline) := by
  simp only [forwardSearch, map_depthFirst, Trail.map_relabel_extend, relabel_forwardHops]

theorem outline_undirectedSearch (columns columns' : List Column) :
    ((ofTables tables).undirectedSearch columns base target).map (List.map Hop.outline) =
      ((ofTables tables).undirectedSearch columns' base target).map (List.map Hop.outline) := by
  have happend (columns : List Column) (t : String) :
      relabel Hop.outline ((ofTables tables).forwardHops columns t ++
          (ofTables tables).reverseHops columns t) =
        relabel Hop.outline ((ofTables tables).forwardHops columns t) ++
          relabel Hop.outline ((ofTables tables).reverseHops columns t) := List.map_append
  simp only [undirectedSearch, map_breadthFirst, happend, relabel_forwardHops, relabel_reverseHops]

/-! ### Columns in another order

The columns are used in one place only, to ask whether some column suggests a foreign key. -/

/-- Which foreign key is preferred depends on the set of the chosen columns. -/
theorem preferred?_congr (h : ∀ c, c ∈ columns ↔ c ∈ columns') (g : ReferenceGraph)
    (target : String) (keys : List ForeignKey) :
    g.preferred? target keys columns = g.preferred? target keys columns' := by
  have hany (p : Column → Bool) : columns.any p = columns'.any p := by
    rw [Bool.eq_iff_iff, List.any_eq_true, List.any_eq_true]
    simp only [h]
  simp only [preferred?, hany]

theorem forwardHops_congr (h : ∀ c, c ∈ columns ↔ c ∈ columns') (g : ReferenceGraph) :
    g.forwardHops columns = g.forwardHops columns' := by
  funext table
  simp only [forwardHops, hop?, preferred?_congr h]

theorem reverseHops_congr (h : ∀ c, c ∈ columns ↔ c ∈ columns') (g : ReferenceGraph) :
    g.reverseHops columns = g.reverseHops columns' := by
  funext table
  simp only [reverseHops, hop?, preferred?_congr h]

end ReferenceGraph

namespace Path

open Table ReferenceGraph

variable {tables : List Table} {base target : String}

/-- The tables of a path and the directions of its hops. -/
def outline (p : Path) : List String × List Bool := (p.tables, p.hops.map Hop.reverse)

theorem outline_eq (hops : List Hop) (last : String) : outline ⟨hops, last⟩ =
    ((hops.map Hop.outline).map Prod.fst ++ [last], (hops.map Hop.outline).map Prod.snd) := by
  simp only [List.map_map]
  rfl

theorem find?_congr {columns columns' : List Column} (h : ∀ c, c ∈ columns ↔ c ∈ columns')
    (g : ReferenceGraph) (base target : String) :
    find? g columns base target = find? g columns' base target := by
  simp only [find?, forwardSearch, undirectedSearch, forwardHops_congr h, reverseHops_congr h]

theorem outline_find? (tables : List Table) (columns columns' : List Column)
    (base target : String) :
    (find? (ofTables tables) columns base target).map outline =
      (find? (ofTables tables) columns' base target).map outline := by
  rw [find?, find?]
  split
  · rfl
  · have hsearch : (((ofTables tables).forwardSearch columns base target).or
          ((ofTables tables).undirectedSearch columns base target)).map (List.map Hop.outline) =
        (((ofTables tables).forwardSearch columns' base target).or
          ((ofTables tables).undirectedSearch columns' base target)).map
            (List.map Hop.outline) := by
      rw [Option.map_or, Option.map_or, outline_forwardSearch columns columns',
        outline_undirectedSearch columns columns']
    have houtline : outline ∘ (⟨·, target⟩) = (fun labels : List (String × Bool) ↦
        (labels.map Prod.fst ++ [target], labels.map Prod.snd)) ∘ List.map Hop.outline :=
      funext fun hops ↦ outline_eq hops target
    rw [Option.map_map, Option.map_map, houtline, ← Option.map_map, ← Option.map_map, hsearch]

/-- **The chosen columns only have a say in which of several parallel foreign keys is followed.**
Whichever columns are chosen, the path visits the same tables in the same directions, or there is
none; and if the same columns are chosen, in any order and any number of times, it is the same
path. -/
theorem find?_columns (tables : List Table) (columns columns' : List Column)
    (base target : String) :
    (find? (ofTables tables) columns base target).map outline =
        (find? (ofTables tables) columns' base target).map outline ∧
      ((∀ c, c ∈ columns ↔ c ∈ columns') →
        find? (ofTables tables) columns base target =
          find? (ofTables tables) columns' base target) :=
  ⟨outline_find? tables columns columns' base target, fun h ↦ find?_congr h _ _ _⟩

/-- The notes decide between the senders and the recipients of messages, and only between them. -/
theorem find?_columns_messages :
    let recipient : Column := ⟨"note", "recipient_id"⟩
    let sender : Column := ⟨"message", "sender_id"⟩
    find? (ofTables messages) [] "user" "thread" ≠
        find? (ofTables messages) [recipient] "user" "thread" ∧
      (find? (ofTables messages) [] "user" "thread").map outline =
        (find? (ofTables messages) [recipient] "user" "thread").map outline ∧
      (∀ c, c ∈ [recipient, sender, recipient] ↔ c ∈ [sender, recipient]) ∧
      find? (ofTables messages) [recipient, sender, recipient] "user" "thread" =
        find? (ofTables messages) [sender, recipient] "user" "thread" := by
  intro recipient sender
  have hsame : ∀ c, c ∈ [recipient, sender, recipient] ↔ c ∈ [sender, recipient] := by
    intro c
    simp only [List.mem_cons, List.not_mem_nil, or_false]
    tauto
  exact ⟨by decide +kernel, (find?_columns messages [] [recipient] _ _).1, hsame,
    (find?_columns messages _ _ _ _).2 hsame⟩

end Path

end ErDiagram
