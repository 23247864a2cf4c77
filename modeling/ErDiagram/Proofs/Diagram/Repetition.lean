import Mathlib.Data.List.Induction
import Mathlib.Data.List.Pairwise
import ErDiagram.Proofs.Diagram.Declarations

/-!
# The names that more than one table has

`Table.duplicateNames` lists each name that more than one table has, once.  The names are meant to
stand in the order of their first declarations, but a name is noted when it is met for the second
time, so they stand in the order of their second declarations: in `b`, `a`, `a`, `b` the name `a` is
noted first.  Both orders are orders of *n*-th declarations (`Table.Sooner`), and the list is in the
order of first declarations just in case no two repeated names change places between their first and
their second declarations (`Table.listsRepeated_duplicateNames`).
-/

set_option autoImplicit false

namespace ErDiagram.Table

/-! ## The order of declarations

`Sooner n` compares two names at one time in the course of going through them: the one has been met
`n` times by then, and the other has not.  This makes sense for names that occur less than `n` times
too, and it orders any two names of which one occurs that often. -/

/-- Going through names, `x` has been met `n` times at some time when `y` has not. -/
def Sooner (n : Nat) (names : List String) (x y : String) : Prop :=
  ∃ k < names.length + 1, n ≤ (names.take k).count x ∧ (names.take k).count y < n

instance (n : Nat) (names : List String) (x y : String) : Decidable (Sooner n names x y) :=
  inferInstanceAs (Decidable (∃ k < _, _))

/-- A list has each name that occurs at least twice among `names` once and no others, in the order
of their `n`-th occurrences. -/
structure ListsRepeated (n : Nat) (names l : List String) : Prop where
  /-- No name is listed twice. -/
  nodup : l.Nodup
  /-- The names listed are those that occur at least twice. -/
  mem_iff : ∀ x, x ∈ l ↔ 2 ≤ names.count x
  /-- A name listed before another has its `n`-th occurrence before it. -/
  ordered : l.Pairwise (Sooner n names)

/-- If `x` is declared for the first time before `y`, then it is for the second time, too. -/
def KeepsOrder (names : List String) (x y : String) : Prop :=
  Sooner 1 names x y → Sooner 2 names x y

variable {n : Nat} {names : List String} {x y : String}

theorem Sooner.ne (h : Sooner n names x y) : x ≠ y := by
  obtain ⟨k, -, hle, hlt⟩ := h
  rintro rfl
  omega

theorem Sooner.asymm (h : Sooner n names x y) : ¬ Sooner n names y x := by
  obtain ⟨k, -, hx, hy⟩ := h
  rintro ⟨m, -, hy', hx'⟩
  have hcount (w : String) {k m : Nat} (hkm : k ≤ m) :
      (names.take k).count w ≤ (names.take m).count w :=
    (List.take_sublist_take_left hkm).count_le w
  rcases Nat.le_total k m with hkm | hkm
  · have := hcount x hkm
    omega
  · have := hcount y hkm
    omega

/-- More names behind do not change which of two was met sooner. -/
theorem Sooner.append (h : Sooner n names x y) (more : List String) :
    Sooner n (names ++ more) x y := by
  obtain ⟨k, hk, hx, hy⟩ := h
  refine ⟨k, by rw [List.length_append]; omega, ?_⟩
  rw [List.take_append_of_le_length (by omega)]
  exact ⟨hx, hy⟩

/-- A name that has been met `n` times comes before one that has not. -/
theorem sooner_of_count (hx : n ≤ names.count x) (hy : names.count y < n) (more : List String) :
    Sooner n (names ++ more) x y :=
  Sooner.append ⟨names.length, by omega, by rwa [List.take_length], by rwa [List.take_length]⟩ more

/-- Of two names, one of which is met `n` times, one comes before the other. -/
theorem sooner_or_sooner (hne : x ≠ y) (hx : n ≤ names.count x) (hn : 0 < n) :
    Sooner n names x y ∨ Sooner n names y x := by
  induction names using List.reverseRecOn with
  | nil => simp at hx; omega
  | append_singleton names z ih =>
    by_cases hy : n ≤ names.count y
    · by_cases hx : n ≤ names.count x
      · exact (ih hx).imp (·.append [z]) (·.append [z])
      · exact .inr (sooner_of_count hy (by omega) [z])
    · by_cases hx' : n ≤ names.count x
      · exact .inl (sooner_of_count hx' (by omega) [z])
      · -- so `x` is met for the `n`-th time at the end
        have hz : z = x := by
          by_contra hz
          rw [List.count_append, List.count_singleton, if_neg (by simpa using hz)] at hx
          omega
        subst hz
        refine .inl ⟨(names ++ [z]).length, by omega, ?_, ?_⟩
        · rwa [List.take_length]
        · rw [List.take_length, List.count_append, List.count_singleton,
            if_neg (by simpa using hne)]
          omega

/-! ## The names that are noted

The list grows at its end as tables are added, so the induction takes tables away from the end.  A
name that is noted now has been met twice and any that is noted later has not, which is the order of
second declarations.  As the list is determined by its members and its order, it is in the order of
first declarations just in case the two orders agree on its members. -/

/-- One more table notes its name if some table before it has that name and it was not noted. -/
theorem duplicateNames_concat (ts : List Table) (t : Table) : duplicateNames (ts ++ [t]) =
    if t.name ∈ ts.map name ∧ t.name ∉ duplicateNames ts then duplicateNames ts ++ [t.name]
    else duplicateNames ts := by
  have hseen (ts : List Table) : (ts.foldl noteName ([], [])).1 = (ts.map name).reverse := by
    induction ts using List.reverseRecOn with
    | nil => rfl
    | append_singleton ts t ih => rw [List.foldl_concat, noteName, ih]; simp
  have hfold (ts : List Table) : duplicateNames ts = (ts.foldl noteName ([], [])).2 := rfl
  rw [hfold, List.foldl_concat, noteName, hseen, ← hfold]
  simp only [List.mem_reverse]

theorem mem_duplicateNames_iff_count {ts : List Table} :
    x ∈ duplicateNames ts ↔ 2 ≤ (ts.map name).count x :=
  mem_duplicateNames.trans List.duplicate_iff_two_le_count

/-- The names that more than one table has stand in the order of their second declarations. -/
theorem pairwise_duplicateNames (ts : List Table) :
    (duplicateNames ts).Pairwise (Sooner 2 (ts.map name)) := by
  induction ts using List.reverseRecOn with
  | nil => exact .nil
  | append_singleton ts t ih =>
    rw [List.map_append, duplicateNames_concat]
    have hearlier := ih.imp fun h ↦ Sooner.append h (List.map name [t])
    split
    · next hnew =>
      refine List.pairwise_append.2 ⟨hearlier, List.pairwise_singleton _ _, fun y hy z hz ↦ ?_⟩
      obtain rfl := List.mem_singleton.1 hz
      have hlate := mt mem_duplicateNames_iff_count.2 hnew.2
      exact sooner_of_count (mem_duplicateNames_iff_count.1 hy) (by omega) _
    · exact hearlier

/-- **Repeated names are listed in the order of their second declarations,** each once and no
others.  That is the order of their first declarations just in case no two of them change places in
between. -/
theorem listsRepeated_duplicateNames (ts : List Table) :
    ListsRepeated 2 (ts.map name) (duplicateNames ts) ∧
      (ListsRepeated 1 (ts.map name) (duplicateNames ts) ↔
        ∀ x y, 2 ≤ (ts.map name).count x → 2 ≤ (ts.map name).count y →
          KeepsOrder (ts.map name) x y) := by
  have hsecond := pairwise_duplicateNames ts
  have hnodup : (duplicateNames ts).Nodup := hsecond.imp Sooner.ne
  have hmem (x : String) : x ∈ duplicateNames ts ↔ 2 ≤ (ts.map name).count x :=
    mem_duplicateNames_iff_count
  refine ⟨⟨hnodup, hmem, hsecond⟩, fun hfirst x y hx hy hxy ↦ ?_, fun hkeeps ↦ ⟨hnodup, hmem, ?_⟩⟩
  · -- of two names that are listed, the one listed first comes first in both orders
    have hsymm : Std.Symm fun a b ↦ KeepsOrder (ts.map name) a b ∧ KeepsOrder (ts.map name) b a :=
      ⟨fun _ _ ↦ And.symm⟩
    have hboth : (duplicateNames ts).Pairwise fun a b ↦
        KeepsOrder (ts.map name) a b ∧ KeepsOrder (ts.map name) b a :=
      hfirst.ordered.imp₂ (fun _ _ h h' ↦ ⟨fun _ ↦ h', fun h'' ↦ absurd h'' h.asymm⟩) hsecond
    exact (hboth.forall ((hmem x).2 hx) ((hmem y).2 hy) hxy.ne).1 hxy
  · -- the list is ordered by second declarations, and the two orders agree on its names
    refine hsecond.imp_of_mem fun {a b} ha hb h ↦ ?_
    have ha := (hmem a).1 ha
    have hb := (hmem b).1 hb
    rcases sooner_or_sooner h.ne (Nat.le_of_succ_le ha) Nat.one_pos with h' | h'
    · exact h'
    · exact absurd (hkeeps b a hb ha h') h.asymm

/-- Between `b`, `a` and `a`, `b` the two names change places, so the name that is declared first is
listed last. -/
theorem not_listsRepeated_interleaved :
    duplicateNames [{ name := "b" }, { name := "a" }, { name := "a" }, { name := "b" }] =
        ["a", "b"] ∧
      Sooner 1 ["b", "a", "a", "b"] "b" "a" ∧
      ¬ ListsRepeated 1 ["b", "a", "a", "b"] (duplicateNames
        [{ name := "b" }, { name := "a" }, { name := "a" }, { name := "b" }]) := by
  have hlisted : duplicateNames
      [{ name := "b" }, { name := "a" }, { name := "a" }, { name := "b" }] = ["a", "b"] := by decide
  refine ⟨hlisted, by decide, fun h ↦ ?_⟩
  have hordered := h.ordered
  rw [hlisted] at hordered
  exact absurd (List.rel_of_pairwise_cons hordered List.mem_cons_self) (by decide)

end ErDiagram.Table
