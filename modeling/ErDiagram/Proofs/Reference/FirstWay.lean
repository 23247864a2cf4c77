import Mathlib.Data.List.Basic
import Mathlib.Data.List.Flatten
import ErDiagram.Reference.Search

/-!
# Depth-first search finds the first way

A *way* to the target goes to nodes that were not seen, and to none twice.  Of two ways with a
common beginning one is `Earlier`: where they part, it makes a move that comes before the other.

Depth-first search never goes back to a node, not even to one from which it has returned, so a
branch that is given up takes its nodes away from all later ones.  No way is lost by that: what was
seen on such a branch is closed under moves, up to the nodes seen before it (`Search.Exhausts`), so
a way that enters it never comes out again and does not reach the target.  Hence the search finds
the first of all ways, or it has seen in vain all there is to be seen
(`Search.explores_depthFirst`).

The proof follows the search choice by choice.  Of the trails that go on from one node, the first is
either followed to the target, and then no other choice comes before it (`IsFirstWay.cons`), or it
is given up, and then the search is where it would be had there been only the other choices, but
with more nodes seen (`IsFirstWay.of_exhausts`).  What is claimed is thus an alternative,
`Search.Explores`, which speaks of some choices and of any trails behind them; the trails behind are
what the induction needs and what the search of a path has none of.
-/

set_option autoImplicit false

namespace ErDiagram

namespace Search

variable {ν σ : Type} {nodes seen : List ν} {moves : ν → List (σ × ν)} {target : ν}
  {choices : List (σ × ν)}

/-! ## Ways, and which of two comes first

A way is said relative to the choices at its start and to the nodes seen before, because these are
what a step of the search changes.  Only the nodes matter for the order of ways: if several moves
lead to one node, the first of them is made and the others are as good as not there. -/

/-- A way to the target, as the list of its moves: the first is one of some choices, each leads to a
node that was not seen and that the way has not been to, and the target comes last. -/
inductive IsWay (nodes : List ν) (moves : ν → List (σ × ν)) (target : ν) :
    List (σ × ν) → List ν → List (σ × ν) → Prop
  | last {choices : List (σ × ν)} {seen : List ν} {m : σ × ν} (hm : m ∈ choices)
      (hnode : m.2 ∈ nodes) (hseen : m.2 ∉ seen) (ht : m.2 = target) :
      IsWay nodes moves target choices seen [m]
  | cons {choices : List (σ × ν)} {seen : List ν} {m : σ × ν} {way : List (σ × ν)}
      (hm : m ∈ choices) (hnode : m.2 ∈ nodes) (hseen : m.2 ∉ seen) (hne : m.2 ≠ target)
      (h : IsWay nodes moves target (moves m.2) (m.2 :: seen) way) :
      IsWay nodes moves target choices seen (m :: way)

/-- Of two lists of nodes, the first goes on to an earlier node where they part. -/
inductive Earlier (moves : ν → List (σ × ν)) : List (σ × ν) → List ν → List ν → Prop
  | turn {choices : List (σ × ν)} {a b : ν} {as bs : List ν}
      (h : [a, b].Sublist (choices.map Prod.snd)) : Earlier moves choices (a :: as) (b :: bs)
  | step {choices : List (σ × ν)} {a : ν} {as bs : List ν} (h : Earlier moves (moves a) as bs) :
      Earlier moves choices (a :: as) (a :: bs)

/-- A way of which the nodes come before those of every other. -/
structure IsFirstWay (nodes : List ν) (moves : ν → List (σ × ν)) (target : ν)
    (choices : List (σ × ν)) (seen : List ν) (way : List (σ × ν)) : Prop where
  /-- It is a way. -/
  isWay : IsWay nodes moves target choices seen way
  /-- It goes on to an earlier node than any other. -/
  earliest : ∀ way', IsWay nodes moves target choices seen way' →
    way'.map Prod.snd = way.map Prod.snd ∨
      Earlier moves choices (way.map Prod.snd) (way'.map Prod.snd)

/-- What has been seen when all choices have been followed in vain. -/
structure Exhausts (nodes : List ν) (moves : ν → List (σ × ν)) (target : ν)
    (choices : List (σ × ν)) (seen seen' : List ν) : Prop where
  /-- Nothing is forgotten. -/
  subset : seen ⊆ seen'
  /-- The target is not seen. -/
  target : target ∉ seen'
  /-- All nodes that are chosen are seen. -/
  choices : ∀ m ∈ choices, m.2 ∈ nodes → m.2 ∈ seen'
  /-- All nodes next to one that was not seen before are seen. -/
  closed : ∀ n ∈ seen', n ∈ seen ∨ ∀ m ∈ moves n, m.2 ∈ nodes → m.2 ∈ seen'

variable {choices' way : List (σ × ν)} {seen' : List ν}

theorem IsWay.of_subset (hsub : choices ⊆ choices')
    (h : IsWay nodes moves target choices seen way) :
    IsWay nodes moves target choices' seen way := by
  cases h with
  | last hm hnode hseen ht => exact .last (hsub hm) hnode hseen ht
  | cons hm hnode hseen hne h => exact .cons (hsub hm) hnode hseen hne h

theorem IsWay.exists_head (h : IsWay nodes moves target choices seen way) :
    ∃ m ∈ way, m ∈ choices ∧ m.2 ∈ nodes := by
  cases h with
  | last hm hnode => exact ⟨_, List.mem_cons_self, hm, hnode⟩
  | cons hm hnode => exact ⟨_, List.mem_cons_self, hm, hnode⟩

/-- A way goes to no node that was seen, and to none twice. -/
theorem IsWay.nodup (h : IsWay nodes moves target choices seen way) :
    (∀ n ∈ way.map Prod.snd, n ∉ seen) ∧ (way.map Prod.snd).Nodup := by
  induction h with
  | last _ _ hseen => exact ⟨List.forall_mem_singleton.2 hseen, by simp⟩
  | cons _ _ hseen _ _ ih =>
    obtain ⟨hrest, hnodup⟩ := ih
    refine ⟨List.forall_mem_cons.2 ⟨hseen, fun n hn hmem ↦ ?_⟩, List.nodup_cons.2 ⟨?_, hnodup⟩⟩
    · exact hrest n hn (List.mem_cons_of_mem _ hmem)
    · exact fun hmem ↦ hrest _ hmem List.mem_cons_self

/-- Whether a list of moves is a way depends on the nodes seen only as far as the way meets them. -/
theorem IsWay.of_meets (h : IsWay nodes moves target choices seen way)
    (hseen' : ∀ n ∈ seen', n ∈ seen ∨ ∀ m ∈ way, m.2 ≠ n) :
    IsWay nodes moves target choices seen' way := by
  have hhead {m : σ × ν} {seen seen' : List ν} {way : List (σ × ν)} (hm : m.2 ∉ seen)
      (hseen' : ∀ n ∈ seen', n ∈ seen ∨ ∀ k ∈ m :: way, k.2 ≠ n) : m.2 ∉ seen' := fun hmem ↦
    (hseen' m.2 hmem).elim hm fun hmeets ↦ hmeets m List.mem_cons_self rfl
  induction h generalizing seen' with
  | last hm hnode hseen ht => exact .last hm hnode (hhead hseen hseen') ht
  | cons hm hnode hseen hne _ ih =>
    refine .cons hm hnode (hhead hseen hseen') hne (ih fun n hn ↦ ?_)
    rcases List.mem_cons.1 hn with rfl | hn
    · exact .inl List.mem_cons_self
    · exact (hseen' n hn).imp (List.mem_cons_of_mem _) fun hmeets k hk ↦
        hmeets k (List.mem_cons_of_mem _ hk)

theorem Earlier.of_sublist {as bs : List ν} (hsub : choices.Sublist choices')
    (h : Earlier moves choices as bs) : Earlier moves choices' as bs := by
  cases h with
  | turn h => exact .turn (h.trans (hsub.map _))
  | step h => exact .step h

/-! ### Branches that are given up

What has been seen in vain is closed under moves, apart from the nodes that were seen before the
branch was entered.  A way cannot come to those either, as they are seen for it as well; so once it
were inside the branch, it would stay there, and the target is not in it
(`Exhausts.not_mem_of_isWay`). -/

namespace Exhausts

variable {m : σ × ν}

/-- A move to something that is no node, or was seen before, is followed in vain at once. -/
theorem of_not_new (hm : ¬ (m.2 ∈ nodes ∧ m.2 ∉ seen)) (ht : target ∉ seen) :
    Exhausts nodes moves target [m] seen seen where
  subset := List.Subset.refl _
  target := ht
  choices := List.forall_mem_singleton.2 fun hnode ↦ not_not.1 fun hseen ↦ hm ⟨hnode, hseen⟩
  closed _ hn := .inl hn

/-- A move is followed in vain if all moves from where it leads are. -/
theorem step (h : Exhausts nodes moves target (moves m.2) (m.2 :: seen) seen') :
    Exhausts nodes moves target [m] seen seen' where
  subset := List.Subset.trans (List.subset_cons_self _ _) h.subset
  target := h.target
  choices := List.forall_mem_singleton.2 fun _ ↦ h.subset List.mem_cons_self
  closed n hn := by
    rcases h.closed n hn with hseen | hmoves
    · rcases List.mem_cons.1 hseen with rfl | hseen
      · exact .inr h.choices
      · exact .inl hseen
    · exact .inr hmoves

theorem cons {seen'' : List ν} (h : Exhausts nodes moves target [m] seen seen')
    (h' : Exhausts nodes moves target choices seen' seen'') :
    Exhausts nodes moves target (m :: choices) seen seen'' where
  subset := List.Subset.trans h.subset h'.subset
  target := h'.target
  choices := List.forall_mem_cons.2
    ⟨fun hnode ↦ h'.subset (h.choices m List.mem_cons_self hnode), h'.choices⟩
  closed n hn := by
    rcases h'.closed n hn with hseen | hmoves
    · exact (h.closed n hseen).imp_right fun hmoves k hk hnode ↦ h'.subset (hmoves k hk hnode)
    · exact .inr hmoves

/-- **A way to the target keeps away from what was seen in vain**, for what it meets there it could
not leave again. -/
theorem not_mem_of_isWay {others : List (σ × ν)} {before : List ν}
    (h : Exhausts nodes moves target choices seen seen') (hbefore : seen ⊆ before)
    (hway : IsWay nodes moves target others before way) : ∀ k ∈ way, k.2 ∉ seen' := by
  induction hway with
  | last _ _ _ ht => exact List.forall_mem_singleton.2 fun hmem ↦ h.target (ht ▸ hmem)
  | @cons _ _ m _ _ _ hseen _ hrest ih =>
    have hrest' := ih (List.subset_cons_of_subset m.2 hbefore)
    refine List.forall_mem_cons.2 ⟨fun hmem ↦ ?_, hrest'⟩
    obtain ⟨k, hk, hmove, hnode⟩ := hrest.exists_head
    rcases h.closed m.2 hmem with hm | hmoves
    · exact hseen (hbefore hm)
    · exact hrest' k hk (hmoves k hmove hnode)

end Exhausts

/-! ### The first way

How a first way for some choices comes about: the first choice leads to the target at once, or it
leads on to a first way, or it is given up and there is a first way for the other choices. -/

variable {m : σ × ν}

/-- A way that does not start with the first choice starts with one of the others. -/
theorem IsWay.of_cons (h : IsWay nodes moves target (m :: choices) seen way)
    (hm : m.2 ∈ nodes → m ∉ way) : IsWay nodes moves target choices seen way := by
  cases h with
  | last hk hnode hseen ht =>
    rcases List.mem_cons.1 hk with rfl | hk
    · exact absurd List.mem_cons_self (hm hnode)
    · exact .last hk hnode hseen ht
  | cons hk hnode hseen hne h =>
    rcases List.mem_cons.1 hk with rfl | hk
    · exact absurd List.mem_cons_self (hm hnode)
    · exact .cons hk hnode hseen hne h

/-- The first node of a way is the one that the first choice leads to, or another choice leads
there. -/
theorem IsWay.cons_cases (h : IsWay nodes moves target (m :: choices) seen way) :
    (m.2 = target ∧ way.map Prod.snd = [m.2]) ∨
      (m.2 ≠ target ∧ ∃ rest, way.map Prod.snd = m.2 :: rest.map Prod.snd ∧
        IsWay nodes moves target (moves m.2) (m.2 :: seen) rest) ∨
      ∃ n ns, way.map Prod.snd = n :: ns ∧ n ∈ choices.map Prod.snd := by
  cases h with
  | last hk hnode hseen ht =>
    rcases List.mem_cons.1 hk with rfl | hk
    · exact .inl ⟨ht, rfl⟩
    · exact .inr (.inr ⟨_, _, rfl, List.mem_map_of_mem hk⟩)
  | cons hk hnode hseen hne h =>
    rcases List.mem_cons.1 hk with rfl | hk
    · exact .inr (.inl ⟨hne, _, rfl, h⟩)
    · exact .inr (.inr ⟨_, _, rfl, List.mem_map_of_mem hk⟩)

theorem Earlier.turn_of_mem {n : ν} {as bs : List ν} (hn : n ∈ choices.map Prod.snd) :
    Earlier moves (m :: choices) (m.2 :: as) (n :: bs) :=
  .turn ((List.singleton_sublist.2 hn).cons_cons _)

namespace IsFirstWay

/-- The first choice leads to the target. -/
theorem last (hnode : m.2 ∈ nodes) (hseen : m.2 ∉ seen) (ht : m.2 = target) :
    IsFirstWay nodes moves target (m :: choices) seen [m] where
  isWay := .last List.mem_cons_self hnode hseen ht
  earliest way' h := by
    rcases h.cons_cases with ⟨-, heq⟩ | ⟨hne, -⟩ | ⟨n, ns, heq, hn⟩
    · exact .inl heq
    · exact absurd ht hne
    · exact .inr (heq ▸ .turn_of_mem hn)

/-- The first choice leads on to a way. -/
theorem cons (hnode : m.2 ∈ nodes) (hseen : m.2 ∉ seen) (hne : m.2 ≠ target)
    (h : IsFirstWay nodes moves target (moves m.2) (m.2 :: seen) way) :
    IsFirstWay nodes moves target (m :: choices) seen (m :: way) where
  isWay := .cons List.mem_cons_self hnode hseen hne h.isWay
  earliest way' h' := by
    rcases h'.cons_cases with ⟨ht, -⟩ | ⟨-, rest, heq, hrest⟩ | ⟨n, ns, heq, hn⟩
    · exact absurd ht hne
    · rw [heq, List.map_cons]
      exact (h.earliest rest hrest).imp (congrArg _) .step
    · exact .inr (heq ▸ .turn_of_mem hn)

/-- The first choice leads to nothing, and another one on to a way. -/
theorem of_exhausts (h : Exhausts nodes moves target [m] seen seen')
    (h' : IsFirstWay nodes moves target choices seen' way) :
    IsFirstWay nodes moves target (m :: choices) seen way where
  isWay := (h'.isWay.of_meets fun _ hn ↦ .inl (h.subset hn)).of_subset
    (List.subset_cons_self _ _)
  earliest way' hway := by
    have havoids := h.not_mem_of_isWay (List.Subset.refl _) hway
    have hother : IsWay nodes moves target choices seen way' := hway.of_cons fun hnode hm ↦
      havoids m hm (h.choices m List.mem_cons_self hnode)
    have hway' : IsWay nodes moves target choices seen' way' := hother.of_meets fun n hn ↦
      .inr fun k hk heq ↦ havoids k hk (heq ▸ hn)
    exact (h'.earliest way' hway').imp_right (.of_sublist (List.sublist_cons_self _ _))

end IsFirstWay

/-! ### The search

The recursion goes along with that of the search: into the choices behind a new node, then on to the
other choices.  It ends because the choices together with the moves that lead away from nodes not
seen become fewer, as they do in the search itself. -/

/-- What depth-first search makes of the trails that go on from a trail by some choices. -/
inductive Explores [DecidableEq ν] (nodes : List ν) (moves : ν → List (σ × ν)) (target : ν)
    (seen : List ν) (t : Trail ν σ) (choices : List (σ × ν)) (todo : List (Trail ν σ)) : Prop
  | found {way : List (σ × ν)} (hway : IsFirstWay nodes moves target choices seen way)
      (heq : depthFirst nodes moves target seen (t.extend choices ++ todo) =
        some (t.1.reverse ++ way.map Prod.fst))
  | exhausted {seen' : List ν} (h : Exhausts nodes moves target choices seen seen')
      (heq : depthFirst nodes moves target seen (t.extend choices ++ todo) =
        depthFirst nodes moves target seen' todo)

variable [DecidableEq ν]

theorem movesLeft_le (nodes : List ν) (moves : ν → List (σ × ν)) (h : seen ⊆ seen') :
    movesLeft nodes moves seen' ≤ movesLeft nodes moves seen := by
  refine (List.Sublist.flatMap ?_ moves).length_le
  exact List.monotone_filter_right nodes fun n hn ↦
    decide_eq_true fun hmem ↦ of_decide_eq_true hn (h hmem)

/-- The search gives the first choice up and turns to the others. -/
theorem Explores.of_exhausts {t : Trail ν σ} {todo : List (Trail ν σ)}
    (h : Exhausts nodes moves target [m] seen seen')
    (heq : depthFirst nodes moves target seen (t.extend (m :: choices) ++ todo) =
      depthFirst nodes moves target seen' (t.extend choices ++ todo))
    (hothers : Explores nodes moves target seen' t choices todo) :
    Explores nodes moves target seen t (m :: choices) todo := by
  cases hothers with
  | found hway hfound => exact .found (hway.of_exhausts h) (heq.trans hfound)
  | exhausted h' hrest => exact .exhausted (h.cons h') (heq.trans hrest)

/-- **Depth-first search finds the first way** that goes on from a trail, or else it has seen in
vain all there is to be seen and turns to the trails behind. -/
theorem explores_depthFirst (nodes : List ν) (moves : ν → List (σ × ν)) (seen : List ν)
    (ht : target ∉ seen) (t : Trail ν σ) (choices : List (σ × ν)) (todo : List (Trail ν σ)) :
    Explores nodes moves target seen t choices todo := by
  match choices with
  | [] =>
    exact .exhausted ⟨List.Subset.refl _, ht, List.forall_mem_nil _, fun _ hn ↦ .inl hn⟩ rfl
  | m :: choices =>
    have hcons : t.extend (m :: choices) ++ todo =
        (m.1 :: t.1, m.2) :: (t.extend choices ++ todo) := rfl
    by_cases hnew : m.2 ∈ nodes ∧ m.2 ∉ seen
    · by_cases hm : m.2 = target
      · refine .found (.last hnew.1 hnew.2 hm) ?_
        rw [hcons, depthFirst, if_pos hnew, if_pos hm, List.reverse_cons]
        rfl
      · have hstep : depthFirst nodes moves target seen (t.extend (m :: choices) ++ todo) =
            depthFirst nodes moves target (m.2 :: seen)
              (Trail.extend (m.1 :: t.1, m.2) (moves m.2) ++ (t.extend choices ++ todo)) := by
          rw [hcons, depthFirst, if_pos hnew, if_neg hm]
        have ht' : target ∉ m.2 :: seen := List.not_mem_cons_of_ne_of_not_mem (Ne.symm hm) ht
        cases explores_depthFirst nodes moves (m.2 :: seen) ht' (m.1 :: t.1, m.2) (moves m.2)
          (t.extend choices ++ todo) with
        | found hway hfound =>
          refine .found (.cons hnew.1 hnew.2 hm hway) (hstep.trans (hfound.trans ?_))
          rw [List.reverse_cons, List.append_assoc]
          rfl
        -- no way was found below this node; what it has seen stays seen for the other choices
        | @exhausted seen' h hrest =>
          exact .of_exhausts h.step (hstep.trans hrest)
            (explores_depthFirst nodes moves seen' h.target t choices todo)
    · refine .of_exhausts (.of_not_new hnew ht) ?_
        (explores_depthFirst nodes moves seen ht t choices todo)
      rw [hcons, depthFirst, if_neg hnew]
  -- a step either sees a new node, or drops a choice and never forgets a node
  termination_by movesLeft nodes moves seen + choices.length
  decreasing_by
    · have := movesLeft_cons_add_le moves hnew.1 hnew.2
      simp only [List.length_cons]
      omega
    · have := movesLeft_le nodes moves h.step.subset
      simp only [List.length_cons]
      omega
    · exact Nat.lt_succ_self _

end Search

end ErDiagram
