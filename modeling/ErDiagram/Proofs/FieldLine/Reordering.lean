import ErDiagram.FieldLine.Field

/-!
# The order of items

A field line may give the type, the modifiers, the default value and the reference in any order.
What counts is only the order among items of one *group*: the first type and the last default value
count, `not null` takes back a `null` before it, and a relation replaces what a foreign key referred
to.  Items of different groups commute in every draft (`Draft.add_comm`), so two field lines with
the same items in each group declare the same field (`FieldLine.field_eq_of_filter_eq`).  A key,
`unique`, `unsigned` and an item without a meaning may moreover be repeated at any place.
-/

set_option autoImplicit false

namespace ErDiagram

/-- What an item is about. -/
inductive Item.Group where
  /-- The type. -/
  | type
  /-- The default value. -/
  | default
  /-- Whether values may be missing. -/
  | null
  /-- What the field refers to. -/
  | reference
  /-- Whether the field is a primary key. -/
  | primaryKey
  /-- Whether no value occurs twice. -/
  | unique
  /-- Whether no value is negative. -/
  | unsigned
  /-- Nothing. -/
  | ignored
  deriving DecidableEq

/-- The group of an item. -/
def Item.group : Item → Item.Group
  | .type _ => .type
  | .default _ => .default
  | .modifier .null | .notNull => .null
  | .modifier .fk | .foreignKey _ | .relation _ _ => .reference
  | .modifier .pk => .primaryKey
  | .modifier .unique => .unique
  | .modifier .unsigned => .unsigned
  | .ignored _ => .ignored

/-- Whether it makes no difference how often an item of a group occurs. -/
def Item.Group.isRepeatable : Item.Group → Bool
  | .primaryKey | .unique | .unsigned | .ignored => true
  | .type | .default | .null | .reference => false

theorem Modifiers.insert_comm (ms : Modifiers) (m n : Modifier) :
    (ms.insert m).insert n = (ms.insert n).insert m := by
  cases m <;> cases n <;> rfl

namespace Draft

variable {a b i : Item} {items before after : List Item}

/-! ## Two items

Items of different groups write to different parts of the draft, and what an item writes depends on
its own group alone.  The modifiers are one record, but each group has its own entries in it; `fk`
belongs to the reference. -/

/-- **Items of different groups commute.** -/
theorem add_comm (d : Draft) (h : a.group ≠ b.group) : (d.add a).add b = (d.add b).add a := by
  cases a with
  | type =>
    cases b with
    | type => exact absurd rfl h
    | _ => rfl
  | default =>
    cases b with
    | default => exact absurd rfl h
    | _ => rfl
  | modifier m =>
    cases b with
    | modifier n => simp only [add, d.modifiers.insert_comm m n]
    | foreignKey | relation => simp only [add, d.modifiers.insert_comm m .fk]
    | notNull =>
      cases m with
      | null => exact absurd rfl h
      | _ => rfl
    | _ => rfl
  | notNull =>
    cases b with
    | notNull => exact absurd rfl h
    | modifier m =>
      cases m with
      | null => exact absurd rfl h
      | _ => rfl
    | _ => rfl
  | foreignKey | relation =>
    cases b with
    | foreignKey | relation => exact absurd rfl h
    | modifier m => simp only [add, d.modifiers.insert_comm m .fk]
    | _ => rfl
  | ignored => cases b <;> rfl

/-- An item that may be repeated has the effect of every item of its group. -/
theorem add_eq_of_isRepeatable (d : Draft) (hi : i.group.isRepeatable = true)
    (h : a.group = i.group) : d.add a = d.add i := by
  cases i with
  | modifier m =>
    cases m with
    | pk | unique | unsigned =>
      cases a with
      | modifier n => cases n <;> first | rfl | cases h
      | _ => cases h
    | fk | null => cases hi
  | ignored =>
    cases a with
    | ignored => rfl
    | modifier n => cases n <;> cases h
    | _ => cases h
  | type | default | notNull | foreignKey | relation => cases hi

theorem add_add_self (d : Draft) (hi : i.group.isRepeatable = true) :
    (d.add i).add i = d.add i := by
  cases i with
  | modifier m => cases m <;> rfl
  | ignored => rfl
  | type | default | notNull | foreignKey | relation => cases hi

/-- An item that may be repeated commutes with every item. -/
theorem add_comm_of_isRepeatable (d : Draft) (hi : i.group.isRepeatable = true) :
    (d.add a).add i = (d.add i).add a := by
  by_cases h : a.group = i.group
  · rw [add_eq_of_isRepeatable d hi h, add_eq_of_isRepeatable _ hi h]
  · exact d.add_comm h

/-! ## Lists of items

From two adjacent items the statement is carried to lists by induction on the first of them: the
first of its group in the second list is the same item, and is moved to the front there, past items
of other groups, which does not change the draft. -/

/-- An item that commutes with others may be taken before them. -/
theorem foldl_add_comm (d : Draft)
    (h : ∀ a ∈ items, ∀ d : Draft, (d.add a).add i = (d.add i).add a) :
    (items.foldl add d).add i = items.foldl add (d.add i) := by
  induction items generalizing d with
  | nil => rfl
  | cons a items ih =>
    obtain ⟨ha, hitems⟩ := List.forall_mem_cons.1 h
    rw [List.foldl_cons, List.foldl_cons, ih _ hitems, ha]

theorem foldl_add_append_cons (d : Draft)
    (h : ∀ a ∈ before, ∀ d : Draft, (d.add a).add i = (d.add i).add a) :
    (before ++ i :: after).foldl add d = (before ++ after).foldl add (d.add i) := by
  rw [List.foldl_append, List.foldl_cons, foldl_add_comm d h, List.foldl_append]

/-- An item that may be repeated has no effect after it occurred. -/
theorem foldl_add_of_mem (d : Draft) (hi : i.group.isRepeatable = true) (h : i ∈ items) :
    items.foldl add (d.add i) = items.foldl add d := by
  have hcomm {l : List Item} : ∀ a ∈ l, ∀ d : Draft, (d.add a).add i = (d.add i).add a :=
    fun _ _ d ↦ d.add_comm_of_isRepeatable hi
  obtain ⟨before, after, rfl⟩ := List.append_of_mem h
  rw [foldl_add_append_cons _ hcomm, foldl_add_append_cons _ hcomm, add_add_self d hi]

/-- **Only the order within each group counts.** -/
theorem foldl_add_eq_of_filter_eq {items' : List Item} (d : Draft)
    (h : ∀ g, items.filter (·.group = g) = items'.filter (·.group = g)) :
    items.foldl add d = items'.foldl add d := by
  induction items generalizing d items' with
  | nil =>
    cases items' with
    | nil => rfl
    | cons a _ => simpa using h a.group
  | cons a items ih =>
    -- The first item of this group on the other side can be brought to the front.
    have ha := h a.group
    rw [List.filter_cons_of_pos (by simp)] at ha
    obtain ⟨before, after, rfl, hbefore, -, hafter⟩ := List.filter_eq_cons_iff.1 ha.symm
    have hcomm : ∀ b ∈ before, ∀ d : Draft, (d.add b).add a = (d.add a).add b :=
      fun b hb d ↦ d.add_comm (by simpa using hbefore b hb)
    rw [List.foldl_cons, foldl_add_append_cons d hcomm]
    refine ih _ fun g ↦ ?_
    by_cases hg : a.group = g
    · subst hg
      rw [List.filter_append, List.filter_eq_nil_iff.2 hbefore, List.nil_append, hafter]
    · have hother := h g
      rwa [List.filter_append, List.filter_cons_of_neg (by simpa using hg),
        List.filter_cons_of_neg (by simpa using hg), ← List.filter_append] at hother

end Draft

namespace FieldLine

variable {items items' before after : List Item} {a b i : Item}

/-- Lines with the same items in each group declare the same field. -/
theorem field_eq_of_filter_eq (name : String)
    (h : ∀ g, items.filter (·.group = g) = items'.filter (·.group = g)) :
    field ⟨name, items⟩ = field ⟨name, items'⟩ := by
  rw [field, field, Draft.foldl_add_eq_of_filter_eq {} h]

theorem field_exchange (name : String) (h : a.group ≠ b.group) :
    field ⟨name, before ++ a :: b :: after⟩ = field ⟨name, before ++ b :: a :: after⟩ := by
  refine field_eq_of_filter_eq name fun g ↦ ?_
  rw [List.filter_append, List.filter_append]
  congr 1
  by_cases ha : a.group = g
  · have hb : b.group ≠ g := fun hb ↦ h (ha.trans hb.symm)
    simp [ha, hb]
  · simp [List.filter_cons, ha]

theorem field_repeat (name : String) (hi : i.group.isRepeatable = true) (h : i ∈ before ++ after) :
    field ⟨name, before ++ i :: after⟩ = field ⟨name, before ++ after⟩ := by
  rw [field, field, Draft.foldl_add_append_cons _ fun _ _ d ↦ d.add_comm_of_isRepeatable hi,
    Draft.foldl_add_of_mem _ hi h]

/-- **Items may be written in any order**: two adjacent ones of different groups may be exchanged,
and a key, `unique`, `unsigned` or an item without a meaning may be repeated at any place. -/
theorem field_reorder (name : String) (before after : List Item) :
    (∀ a b : Item, a.group ≠ b.group →
      field ⟨name, before ++ a :: b :: after⟩ = field ⟨name, before ++ b :: a :: after⟩) ∧
    ∀ i : Item, i.group.isRepeatable = true → i ∈ before ++ after →
      field ⟨name, before ++ i :: after⟩ = field ⟨name, before ++ after⟩ :=
  ⟨fun _ _ ↦ field_exchange name, fun _ ↦ field_repeat name⟩

/-- A relation that refers to nothing may be exchanged with `not null`, and a key may be repeated
before it. -/
theorem field_reorder_owner :
    (Item.relation "-<" none).group ≠ Item.notNull.group ∧
      field ⟨"owner_id", [.foreignKey (some { table := "user" }), .modifier .null] ++
          .relation "-<" none :: .notNull :: [.modifier .pk]⟩ =
        field ⟨"owner_id", [.foreignKey (some { table := "user" }), .modifier .null] ++
          .notNull :: .relation "-<" none :: [.modifier .pk]⟩ ∧
      (Item.modifier .pk).group.isRepeatable = true ∧
      Item.modifier .pk ∈ [.relation "-<" none] ++ [.type "int", .modifier .pk] ∧
      field ⟨"owner_id", [.relation "-<" none] ++ .modifier .pk :: [.type "int", .modifier .pk]⟩ =
        field ⟨"owner_id", [.relation "-<" none] ++ [.type "int", .modifier .pk]⟩ := by
  have hgroup : (Item.relation "-<" none).group ≠ Item.notNull.group := nofun
  have hmem : Item.modifier .pk ∈ [.relation "-<" none] ++ [.type "int", .modifier .pk] := by
    decide
  exact ⟨hgroup, (field_reorder "owner_id" _ _).1 _ _ hgroup, rfl, hmem,
    (field_reorder "owner_id" _ _).2 _ rfl hmem⟩

/-- Within a group the order counts: `not null` takes back only what stands before it. -/
example : (field ⟨"owner_id", [.modifier .null, .notNull]⟩).modifiers.null = false ∧
    (field ⟨"owner_id", [.notNull, .modifier .null]⟩).modifiers.null = true := by decide

end FieldLine

end ErDiagram
