/-!
# Searching a graph for a way to a node

Two searches over a graph that is given by its finitely many nodes and, for each of them, the list
of *moves* that lead away from it.  Both find a way as the list of its moves.  A move to something
that is no node is not made.

`depthFirst` follows the moves of a node in order and all that lies behind one before the next;
`breadthFirst` goes to all nodes at one distance before any that is further.  Both end because no
node is gone to twice: `remaining` counts the nodes that are left.

What is searched is left open: the nodes may be of any type with decidable equality, and so may what
a move is labelled with.  The search of paths takes the tables for nodes and the foreign keys for
labels; that a search does not look at labels is then a theorem
(`ErDiagram.Proofs.Reference.Outline`).

Both searches keep the nodes seen and a list of trails yet to be followed, and they differ in where
the trails that go on from the first one are put, and in when a node counts as seen.  Depth-first
search puts them in front, and a node is seen when a trail that ends there is followed.
Breadth-first search puts them behind, and a node is seen already when a trail to it is put into the
list, so no two trails of its list lead to one node.
-/

set_option autoImplicit false

namespace ErDiagram.Search

variable {ν σ : Type} [DecidableEq ν]

/-! ## Why the searches end

A step of depth-first search takes the first trail off the list.  It may put in more trails than
that, but only from a node that had not been seen, and those are at most the moves that lead away
from this node: so the moves of the nodes not seen and the trails in the list become fewer together
(`movesLeft`).  A step of breadth-first search takes one trail off and puts in one for each node
that it sees for the first time, so there the nodes not seen and the trails become fewer together
(`remaining`). -/

/-- The number of nodes that are not among those seen. -/
def remaining (nodes seen : List ν) : Nat := nodes.countP (· ∉ seen)

theorem remaining_cons_lt {nodes seen : List ν} {n : ν} (hn : n ∈ nodes) (hs : n ∉ seen) :
    remaining nodes (n :: seen) < remaining nodes seen := by
  induction nodes with
  | nil => cases hn
  | cons m ms ih =>
    have hle : remaining ms (n :: seen) ≤ remaining ms seen := by
      refine List.countP_mono_left fun x _ hx ↦ ?_
      exact decide_eq_true fun hmem ↦ of_decide_eq_true hx (List.mem_cons_of_mem _ hmem)
    simp only [remaining, List.countP_cons, List.mem_cons, not_or, decide_eq_true_eq] at *
    by_cases hm : m = n
    · subst hm
      rw [if_neg (fun h ↦ h.1 rfl), if_pos hs]
      omega
    · have hlt := ih (hn.resolve_left fun h ↦ hm h.symm)
      by_cases h : m ∈ seen
      · rw [if_neg (fun h' ↦ h'.2 h), if_neg (fun h' ↦ h' h)]
        exact hlt
      · rw [if_pos ⟨hm, h⟩, if_pos h]
        exact Nat.succ_lt_succ hlt

/-- A way that has been begun: its moves so far, the last first, and the node it has reached. -/
abbrev Trail (ν σ : Type) := List σ × ν

/-- The trails that go on from a trail by one move. -/
def Trail.extend (t : Trail ν σ) (moves : List (σ × ν)) : List (Trail ν σ) :=
  moves.map fun (step, node) ↦ (step :: t.1, node)

/-- The number of moves that lead away from the nodes that are not among those seen. -/
def movesLeft (nodes : List ν) (moves : ν → List (σ × ν)) (seen : List ν) : Nat :=
  ((nodes.filter (· ∉ seen)).flatMap moves).length

theorem movesLeft_cons_add_le {nodes seen : List ν} {n : ν} (moves : ν → List (σ × ν))
    (hn : n ∈ nodes) (hs : n ∉ seen) :
    movesLeft nodes moves (n :: seen) + (moves n).length ≤ movesLeft nodes moves seen := by
  have mono (ms : List ν) : movesLeft ms moves (n :: seen) ≤ movesLeft ms moves seen := by
    induction ms with
    | nil => exact Nat.le_refl _
    | cons m ms ih =>
      simp only [movesLeft, List.filter_cons, List.mem_cons, not_or, decide_eq_true_eq] at *
      by_cases hm : m = n ∨ m ∈ seen
      · rw [if_neg (fun h ↦ hm.elim h.1 h.2)]
        split
        · simp only [List.flatMap_cons, List.length_append]
          omega
        · exact ih
      · rw [if_pos (not_or.1 hm), if_pos (not_or.1 hm).2]
        simp only [List.flatMap_cons, List.length_append]
        omega
  induction nodes with
  | nil => cases hn
  | cons m ms ih =>
    have hle := mono ms
    simp only [movesLeft, List.filter_cons, List.mem_cons, not_or, decide_eq_true_eq] at *
    by_cases hm : m = n
    · subst hm
      rw [if_neg (fun h ↦ h.1 rfl), if_pos hs]
      simp only [List.flatMap_cons, List.length_append]
      omega
    · have hlt := ih (hn.resolve_left fun h ↦ hm h.symm)
      by_cases h : m ∈ seen
      · rw [if_neg (fun h' ↦ h'.2 h), if_neg (fun h' ↦ h' h)]
        exact hlt
      · rw [if_pos ⟨hm, h⟩, if_pos h]
        simp only [List.flatMap_cons, List.length_append]
        omega

/-! ## Depth first

The trails that go on from the node that has been reached are followed before all others, in the
order of its moves. -/

/-- The way that depth-first search finds to `target`, if it has seen the nodes `seen` and the
trails in the second list are yet to be followed, the first of them first. -/
def depthFirst (nodes : List ν) (moves : ν → List (σ × ν)) (target : ν) (seen : List ν) :
    List (Trail ν σ) → Option (List σ)
  | [] => none
  | t :: todo =>
    if t.2 ∈ nodes ∧ t.2 ∉ seen then
      if t.2 = target then some t.1.reverse
      else depthFirst nodes moves target (t.2 :: seen) (t.extend (moves t.2) ++ todo)
    else depthFirst nodes moves target seen todo
  termination_by todo => movesLeft nodes moves seen + todo.length
  decreasing_by
    · next h _ =>
      have := movesLeft_cons_add_le moves h.1 h.2
      simp only [List.length_append, List.length_cons, Trail.extend, List.length_map]
      omega
    · simp only [List.length_cons]
      omega

/-! ## Breadth first

Of the moves from a node only those to new nodes are made, and of several to one new node only the
first (`fresh`); the nodes count as seen from then on. -/

/-- The moves among a list that lead to nodes not seen, and of those to one node only the first. -/
def fresh (nodes seen : List ν) : List (σ × ν) → List (σ × ν)
  | [] => []
  | m :: ms =>
    if m.2 ∈ nodes ∧ m.2 ∉ seen then m :: fresh nodes (m.2 :: seen) ms
    else fresh nodes seen ms

/-- Every fresh move leads to one of the nodes that were left. -/
theorem remaining_fresh (nodes seen : List ν) (ms : List (σ × ν)) :
    remaining nodes (((fresh nodes seen ms).map Prod.snd).reverse ++ seen) +
      (fresh nodes seen ms).length ≤ remaining nodes seen := by
  induction ms generalizing seen with
  | nil => simp [fresh]
  | cons m ms ih =>
    rw [fresh]
    split
    · next h =>
      have h1 := ih (m.2 :: seen)
      have h2 := remaining_cons_lt h.1 h.2
      simp only [List.map_cons, List.reverse_cons, List.append_assoc, List.singleton_append,
        List.length_cons]
      omega
    · exact ih seen

/-- The way that breadth-first search finds to `target`, if it has seen the nodes `seen` and the
trails in the second list are yet to be followed, the first of them first. -/
def breadthFirst (nodes : List ν) (moves : ν → List (σ × ν)) (target : ν) (seen : List ν) :
    List (Trail ν σ) → Option (List σ)
  | [] => none
  | t :: todo =>
    if t.2 = target then some t.1.reverse
    else
      breadthFirst nodes moves target
        (((fresh nodes seen (moves t.2)).map Prod.snd).reverse ++ seen)
        (todo ++ t.extend (fresh nodes seen (moves t.2)))
  termination_by todo => remaining nodes seen + todo.length
  decreasing_by
    have := remaining_fresh nodes seen (moves t.2)
    simp only [List.length_append, List.length_cons, Trail.extend, List.length_map]
    omega

end ErDiagram.Search
