import Mathlib.Data.List.Basic

/-!
# Distinct names, and lists kept by name

A list of names is left with the first occurrence of each when repetitions are taken out
(`eraseDups_concat`).  A dictionary of lists is a list of names, each with a list of its own;
`entry` reads the list of a name, which is empty until something is entered, and `alter` changes it,
the name coming last if it is new.  A dictionary whose names are distinct and whose lists are given
by a function stays one of this kind (`alter_map`).

Dictionaries are kept as lists because their order can be seen: it is the order in which names were
first entered.  What is proved here is meant for dictionaries that are filled in from the front of
some list to its end.  The list grows by one item, and of the dictionary one entry changes or one is
added at the end; the two sides of `alter_map` are the dictionary before and after such a step,
described by the same function of the names.
-/

set_option autoImplicit false

namespace ErDiagram

/-- A list without repetitions is left when repetitions are taken out. -/
theorem nodup_eraseDups (l : List String) : l.eraseDups.Nodup := by
  induction hn : l.length using Nat.strongRecOn generalizing l with
  | ind n ih =>
    cases l with
    | nil => simp
    | cons a l =>
      rw [List.eraseDups_cons, List.nodup_cons]
      refine ⟨fun ha ↦ ?_, ih _ ?_ _ rfl⟩
      · have := (List.mem_filter.1 (List.mem_eraseDups.1 ha)).2
        simp at this
      · rw [← hn]
        exact Nat.lt_succ_of_le (List.length_filter_le _ _)

theorem eraseDups_concat (l : List String) (a : String) :
    (l ++ [a]).eraseDups = if a ∈ l then l.eraseDups else l.eraseDups ++ [a] := by
  rw [List.eraseDups_append]
  by_cases ha : a ∈ l
  · simp [List.removeAll, ha]
  · simp [List.removeAll, ha, List.eraseDups_cons]

namespace Dictionary

variable {β : Type}

/-- The list of a name. -/
def entry (d : List (String × List β)) (name : String) : List β := (d.lookup name).getD []

/-- A dictionary with the list of a name changed. -/
def alter (name : String) (f : List β → List β) :
    List (String × List β) → List (String × List β)
  | [] => [(name, f [])]
  | (n, l) :: d => if n = name then (n, f l) :: d else (n, l) :: alter name f d

variable {name : String} {f : List β → List β} {d : List (String × List β)}

theorem lookup_cons_of_ne {n m : String} (h : n ≠ m) (l : List β) :
    ((m, l) :: d).lookup n = d.lookup n := by
  rw [List.lookup_cons, beq_false_of_ne h]

theorem lookup_alter (n : String) :
    (alter name f d).lookup n = if n = name then some (f (entry d name)) else d.lookup n := by
  induction d with
  | nil =>
    by_cases hn : n = name
    · rw [if_pos hn, alter, hn, List.lookup_cons_self]
      rfl
    · rw [if_neg hn, alter, lookup_cons_of_ne hn]
  | cons e d ih =>
    obtain ⟨m, l⟩ := e
    rw [alter]
    by_cases hm : m = name
    · subst hm
      rw [if_pos rfl, entry, List.lookup_cons_self]
      by_cases hn : n = m
      · rw [if_pos hn, hn, List.lookup_cons_self, Option.getD_some]
      · rw [if_neg hn, lookup_cons_of_ne hn, lookup_cons_of_ne hn]
    · rw [if_neg hm, entry, lookup_cons_of_ne (Ne.symm hm), ← entry]
      by_cases hn : n = m
      · rw [hn, List.lookup_cons_self, List.lookup_cons_self, if_neg hm]
      · rw [lookup_cons_of_ne hn, lookup_cons_of_ne hn, ih]

theorem entry_alter (n : String) :
    entry (alter name f d) n = if n = name then f (entry d name) else entry d n := by
  rw [entry, lookup_alter]
  split <;> rfl

/-- A dictionary whose lists are a function of their names. -/
theorem alter_map {names : List String} {g : String → List β} (hnodup : names.Nodup)
    (hnew : name ∉ names → g name = []) :
    alter name f (names.map fun n ↦ (n, g n)) =
      (if name ∈ names then names else names ++ [name]).map fun n ↦
        (n, if n = name then f (g n) else g n) := by
  induction names with
  | nil => simp [alter, hnew List.not_mem_nil]
  | cons m names ih =>
    obtain ⟨hm, hnodup⟩ := List.nodup_cons.1 hnodup
    rw [List.map_cons, alter]
    by_cases he : m = name
    · subst he
      rw [if_pos rfl, if_pos List.mem_cons_self, List.map_cons, if_pos rfl]
      refine congrArg _ (List.map_congr_left fun n hn ↦ ?_)
      rw [if_neg (ne_of_mem_of_not_mem hn hm)]
    · have hmem : name ∈ m :: names ↔ name ∈ names := by simp [Ne.symm he]
      rw [if_neg he, ih hnodup fun h ↦ hnew (hmem.not.2 h)]
      by_cases h : name ∈ names
      · rw [if_pos h, if_pos (hmem.2 h), List.map_cons, if_neg he]
      · rw [if_neg h, if_neg (hmem.not.2 h), List.cons_append, List.map_cons, if_neg he]

end Dictionary

end ErDiagram
