import ErDiagram.Directive.Basic
import ErDiagram.Proofs.Dictionary

/-!
# Positions of tables by name

What a map of positions holds: the entries put into it (`Positions.mem_of_mem_ofList`), and just
these if no name occurs twice among them (`Positions.entries_ofList`).  Positions are written in the
order of the tables, each name once; `Positions.inOrder` is the list of entries in that order, and
it holds what the map holds (`Positions.mem_inOrder`).

A map of positions is a list, and here it is brought to the form in which other modules use it: two
names are the same or they are not, and a name has one position at most.  The order of names matters
in one place only, where the positions are written.
-/

set_option autoImplicit false

namespace ErDiagram

namespace Positions

variable {ps : Positions} {es : List (String × TablePosition)} {e : String × TablePosition}
  {name : String} {p : TablePosition}

/-! ## Entries that are put

Entries with names of their own make a map that is just the list of them.  In general a map holds
some of the entries that were put into it. -/

theorem mem_of_mem_putEntry (h : e ∈ putEntry name p es) : e = (name, p) ∨ e ∈ es := by
  induction es with
  | nil => exact .inl (List.mem_singleton.1 h)
  | cons f es ih =>
    rw [putEntry] at h
    split at h
    · exact (List.mem_cons.1 h).imp_right (List.mem_cons_of_mem _)
    · rcases List.mem_cons.1 h with rfl | h
      · exact .inr List.mem_cons_self
      · exact (ih h).imp_right (List.mem_cons_of_mem _)

theorem mem_of_mem_foldl (h : e ∈ (es.foldl (fun ps e ↦ ps.put e.1 e.2) ps).entries) :
    e ∈ ps.entries ∨ e ∈ es := by
  induction es generalizing ps with
  | nil => exact .inl h
  | cons f es ih =>
    rcases ih h with h | h
    · rcases mem_of_mem_putEntry h with rfl | h
      · exact .inr List.mem_cons_self
      · exact .inl h
    · exact .inr (List.mem_cons_of_mem _ h)

/-- A map holds what was put into it. -/
theorem mem_of_mem_ofList (h : e ∈ (ofList es).entries) : e ∈ es :=
  (mem_of_mem_foldl h).resolve_left List.not_mem_nil

theorem putEntry_of_notMem (h : name ∉ es.map Prod.fst) :
    putEntry name p es = es ++ [(name, p)] := by
  induction es with
  | nil => rfl
  | cons f es ih =>
    rw [List.map_cons, List.mem_cons, not_or] at h
    rw [putEntry, if_neg fun heq ↦ h.1 heq.symm, ih h.2]
    rfl

theorem entries_foldl (h : ((ps.entries ++ es).map Prod.fst).Nodup) :
    (es.foldl (fun ps e ↦ ps.put e.1 e.2) ps).entries = ps.entries ++ es := by
  induction es generalizing ps with
  | nil => exact (List.append_nil _).symm
  | cons f es ih =>
    rw [List.append_cons] at h ⊢
    have hput : (ps.put f.1 f.2).entries = ps.entries ++ [f] := by
      refine putEntry_of_notMem ?_
      intro hmem
      rw [List.map_append, List.map_append, List.nodup_append] at h
      exact (List.nodup_append.1 h.1).2.2 _ hmem _ List.mem_cons_self rfl
    rw [List.foldl_cons, ih (hput ▸ h), hput]

/-- Entries with distinct names are held as they are. -/
theorem entries_ofList (h : (es.map Prod.fst).Nodup) : (ofList es).entries = es :=
  entries_foldl h

/-! ## Looking up

As no name occurs twice, looking a name up finds the one entry there is. -/

theorem mem_of_get? (h : ps.get? name = some p) : (name, p) ∈ ps.entries := by
  obtain ⟨e, he, rfl⟩ := Option.map_eq_some_iff.1 h
  obtain rfl : e.1 = name := by simpa using List.find?_some he
  exact List.mem_of_find?_eq_some he

theorem find?_of_mem (hnodup : (es.map Prod.fst).Nodup) (h : (name, p) ∈ es) :
    es.find? (·.1 == name) = some (name, p) := by
  induction es with
  | nil => cases h
  | cons e es ih =>
    rw [List.map_cons, List.nodup_cons] at hnodup
    rcases List.mem_cons.1 h with rfl | h
    · exact List.find?_cons_of_pos (by simp)
    · have hne : e.1 ≠ name := fun heq ↦
        hnodup.1 (heq ▸ List.mem_map_of_mem (f := Prod.fst) h)
      rw [List.find?_cons_of_neg (by simpa using hne), ih hnodup.2 h]

/-- A map gives a name the position that it holds for it. -/
theorem get?_eq_some_iff : ps.get? name = some p ↔ (name, p) ∈ ps.entries :=
  ⟨mem_of_get?, fun h ↦ by rw [get?, find?_of_mem ps.nodup h, Option.map_some]⟩

theorem find?_putEntry (name : String) (p : TablePosition) (es : List (String × TablePosition))
    (t : String) : (putEntry name p es).find? (·.1 == t) =
      if name = t then some (name, p) else es.find? (·.1 == t) := by
  induction es with
  | nil => by_cases h : name = t <;> simp [putEntry, h]
  | cons e es ih =>
    rw [putEntry]
    by_cases he : e.1 = name
    · by_cases h : name = t <;> simp [he, h]
    · by_cases h : name = t
      · subst h
        simp [he, ih]
      · simp [he, h, ih, List.find?_cons]

/-- A position that is put is the position of its name, and of no other. -/
theorem get?_put (ps : Positions) (name : String) (p : TablePosition) (t : String) :
    (ps.put name p).get? t = if name = t then some p else ps.get? t := by
  rw [get?, put, find?_putEntry]
  split <;> rfl

theorem ofList_concat (es : List (String × TablePosition)) (e : String × TablePosition) :
    ofList (es ++ [e]) = (ofList es).put e.1 e.2 := List.foldl_append

/-! ## The order in which positions are written

The names of the given tables come first, if they have a position, and then all other names of the
map.  Each name comes once, even if several tables have it, so that what is written is the map in
another order. -/

/-- The names with a position, those of the given tables first. -/
def order (ps : Positions) (tables : List String) : List String :=
  let placed := tables.filter (· ∈ ps.names)
  (placed ++ ps.names.filter (· ∉ placed)).eraseDups

theorem mem_order {tables : List String} {t : String} : t ∈ ps.order tables ↔ t ∈ ps.names := by
  simp only [order, List.mem_eraseDups, List.mem_append, List.mem_filter, decide_eq_true_eq]
  constructor
  · rintro (⟨-, h⟩ | ⟨h, -⟩)
    · exact h
    · exact h
  · intro h
    by_cases ht : t ∈ tables
    · exact .inl ⟨ht, h⟩
    · exact .inr ⟨h, fun hplaced ↦ ht hplaced.1⟩

theorem length_order (tables : List String) : (ps.order tables).length = ps.entries.length := by
  have hperm : (ps.order tables).Perm ps.names :=
    (List.perm_ext_iff_of_nodup (nodup_eraseDups _) ps.nodup).2 fun _ ↦ mem_order
  rw [hperm.length_eq, names, List.length_map]

/-- The entries for the given names, in their order. -/
def inOrder (ps : Positions) (order : List String) : List (String × TablePosition) :=
  order.filterMap fun t ↦ (ps.get? t).map (Prod.mk t)

theorem get?_of_mem_inOrder {order : List String} (h : e ∈ ps.inOrder order) :
    ps.get? e.1 = some e.2 := by
  obtain ⟨t, _, ht⟩ := List.mem_filterMap.1 h
  obtain ⟨q, hq, rfl⟩ := Option.map_eq_some_iff.1 ht
  exact hq

theorem map_fst_inOrder {order : List String} (h : ∀ t ∈ order, t ∈ ps.names) :
    (ps.inOrder order).map Prod.fst = order := by
  induction order with
  | nil => rfl
  | cons t order ih =>
    obtain ⟨ht, horder⟩ := List.forall_mem_cons.1 h
    obtain ⟨⟨_, p⟩, hmem, rfl⟩ := List.mem_map.1 ht
    have hcons : ps.inOrder (_ :: order) = (_, p) :: ps.inOrder order :=
      List.filterMap_cons_some (by rw [get?_eq_some_iff.2 hmem, Option.map_some])
    rw [hcons, List.map_cons, ih horder]

/-- What is written are the entries of the map. -/
theorem mem_inOrder {tables : List String} :
    e ∈ ps.inOrder (ps.order tables) ↔ e ∈ ps.entries := by
  refine ⟨fun h ↦ mem_of_get? (get?_of_mem_inOrder h), fun h ↦ ?_⟩
  have horder : e.1 ∈ ps.order tables := mem_order.2 (List.mem_map_of_mem h)
  exact List.mem_filterMap.2 ⟨e.1, horder, by rw [get?_eq_some_iff.2 h, Option.map_some]⟩

end Positions

end ErDiagram
