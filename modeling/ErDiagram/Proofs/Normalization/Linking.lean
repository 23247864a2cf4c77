import ErDiagram.Normalization
import ErDiagram.Proofs.Diagram.Declarations

/-!
# Links to a lookup table

When a field is moved into a lookup table, the tables with other names keep their places, and each
of them that declared the field is to be linked to the lookup table: by just one field named after
it, which refers to its `id` (`Table.LinksTo`).  A field of that name may be there already, and then
the moved field is only taken away, whatever the other one is.  So the link is there afterwards just
in case the name was free and the field declared once, or the link was there before and is not the
field that is moved (`Diagram.linksTo_normalize_iff`).
-/

set_option autoImplicit false

namespace ErDiagram

namespace Table

/-- The tables with other names than the lookup table. -/
def others (lookup : String) (ts : List Table) : List Table := ts.filter (·.name ≠ lookup)

/-- Just one field of a table is named after a lookup table, and it refers to its `id`. -/
def LinksTo (t : Table) (lookup : String) : Prop :=
  (t.fields.filter (·.name = lookup ++ "_id")).map
    (fun f ↦ f.reference.map fun r ↦ (r.table, r.field)) = [some (lookup, "id")]

instance (t : Table) (lookup : String) : Decidable (t.LinksTo lookup) :=
  inferInstanceAs (Decidable (_ = _))

variable {t new : Table} {field lookup : String} {f : Field} {ts : List Table}

/-! ## Tables with other names

Making a lookup table, or giving it the field, changes no table of another name and none of their
places, so a place among the others means the same before and afterwards. -/

theorem others_extendFirst (name : String) (f : Field) (ts : List Table) :
    others name (extendFirst name f ts) = others name ts := by
  induction ts with
  | nil => rfl
  | cons t ts ih =>
    rw [extendFirst]
    by_cases ht : t.name = name
    · rw [if_pos ht]
      split <;> simp [others, ht]
    · rw [if_neg ht, others, others, List.filter_cons_of_pos (by simpa using ht),
        List.filter_cons_of_pos (by simpa using ht)]
      exact congrArg _ ih

theorem others_insertAfterLast (p : Table → Bool) (hnew : new.name = lookup) (ts : List Table) :
    others lookup (insertAfterLast p new ts) = others lookup ts := by
  induction ts with
  | nil => simp [insertAfterLast, others, hnew]
  | cons t ts ih =>
    rw [insertAfterLast]
    split
    · rw [others, others, List.filter_cons, List.filter_cons]
      rw [others, others] at ih
      rw [ih]
    · simp [others, List.filter_cons, hnew]

theorem others_withLookup (field lookup : String) (value : Field) (ts : List Table) :
    others lookup (withLookup field lookup value ts) = others lookup ts := by
  rw [withLookup]
  split
  · exact others_extendFirst lookup value ts
  · have hname : (newLookup lookup value).name = lookup := rfl
    exact others_insertAfterLast _ hname ts

/-! ## A table of which a field is moved

Two cases, by whether the name of the link is taken in this table.  If it is, the other fields stay
as they are, so there is a link just in case there was one that has not been taken away.  If it is
not, each declaration of the moved field becomes a link, and there is just one if the field was
declared just once. -/

/-- A table that refers to the lookup table in place of a field, if it is to. -/
def withMoved (field lookup : String) (t : Table) : Table :=
  if t.isAffected field lookup then t.referToLookup field lookup else t

theorem name_withMoved (field lookup : String) (t : Table) :
    (t.withMoved field lookup).name = t.name := by
  rw [withMoved]
  split <;> rfl

theorem others_map_withMoved (field lookup : String) (ts : List Table) :
    others lookup (ts.map (withMoved field lookup)) =
      (others lookup ts).map (withMoved field lookup) := by
  rw [others, List.filter_map, others]
  simp only [Function.comp_def, name_withMoved]

/-- If the name of the link is taken, the moved field is only taken away. -/
theorem fields_referToLookup_of_isSome (h : (t.field? (lookup ++ "_id")).isSome = true) :
    (t.referToLookup field lookup).fields = t.fields.filter (·.name ≠ field) := by
  have hpresent : (t.field? (lookupReference lookup).name).isSome = true := h
  simp only [referToLookup, hpresent, if_true]
  generalize t.fields = fs
  induction fs with
  | nil => rfl
  | cons f fs ih =>
    rw [List.flatMap_cons, ih]
    by_cases hf : f.name = field <;> simp [hf]

/-- If the name of the link is free, there is a link for each declaration of the moved field. -/
theorem links_referToLookup_of_eq_none (h : t.field? (lookup ++ "_id") = none) :
    ((t.referToLookup field lookup).fields.filter (·.name = lookup ++ "_id")).map
        (fun f ↦ f.reference.map fun r ↦ (r.table, r.field)) =
      List.replicate (t.fields.countP (·.name = field)) (some (lookup, "id")) := by
  have habsent : (t.field? (lookupReference lookup).name).isSome = false := by
    rw [show (lookupReference lookup).name = lookup ++ "_id" from rfl, h]
    rfl
  have hother := field?_eq_none_iff.1 h
  simp only [referToLookup, habsent, Bool.false_eq_true, if_false]
  generalize t.fields = fs at hother
  induction fs with
  | nil => rfl
  | cons f fs ih =>
    obtain ⟨hf, hfs⟩ := List.forall_mem_cons.1 hother
    rw [List.flatMap_cons, List.filter_append, List.map_append, ih hfs, List.countP_cons]
    by_cases hfield : f.name = field
    · simp [hfield, lookupReference, List.replicate_succ]
    · simp [hfield, hf]

/-- **A table is linked to the lookup table** just in case the name of the link was free and the
field declared once, or the table was linked before and the link is not the field that is moved. -/
theorem linksTo_referToLookup_iff (t : Table) (field lookup : String) :
    (t.referToLookup field lookup).LinksTo lookup ↔
      (t.field? (lookup ++ "_id") = none ∧ t.fields.countP (·.name = field) = 1) ∨
        (field ≠ lookup ++ "_id" ∧ t.LinksTo lookup) := by
  cases hlink : t.field? (lookup ++ "_id") with
  | none =>
    have hnot : ¬t.LinksTo lookup := by
      have hempty : t.fields.filter (·.name = lookup ++ "_id") = [] := by
        simpa [List.filter_eq_nil_iff] using field?_eq_none_iff.1 hlink
      rw [LinksTo, hempty]
      exact nofun
    rw [LinksTo, links_referToLookup_of_eq_none hlink, ← List.replicate_one, List.replicate_inj]
    simp [hnot]
  | some g =>
    rw [LinksTo, fields_referToLookup_of_isSome (by rw [hlink]; rfl), List.filter_filter, LinksTo]
    by_cases hfield : field = lookup ++ "_id"
    · simp [hfield]
    · -- the field that is taken out is not the link, so the links are as before
      have hsame : ∀ f ∈ t.fields, (decide (f.name = lookup ++ "_id") && decide (f.name ≠ field)) =
          decide (f.name = lookup ++ "_id") := by
        intro f _
        by_cases hf : f.name = lookup ++ "_id"
        · simp [hf, Ne.symm hfield]
        · simp [hf]
      rw [List.filter_congr hsame]
      simp [hfield]

end Table

namespace Diagram

open Table

variable {d : Diagram} {field : String} {lookup : Option String} {name : String}

/-! ### Diagrams

The lookup table is left out on both sides, and then the tables correspond one by one. -/

/-- If no table is to refer to the lookup table, no table has a field moved. -/
theorem map_withMoved_of_affected? (hname : lookupName field lookup = name)
    (h : d.affected? field lookup = none) : d.tables.map (withMoved field name) = d.tables := by
  refine (List.map_congr_left fun t ht ↦ ?_).trans (List.map_id _)
  rw [affected?, hname] at h
  exact if_neg (List.find?_eq_none.1 h t ht)

/-- **The tables with other names keep their places**, with the field moved. -/
theorem others_normalize (hname : lookupName field lookup = name) :
    others name (d.normalize field lookup).tables =
      (others name d.tables).map (withMoved field name) := by
  rw [normalize, hname, ← others_map_withMoved]
  split
  · next hnone => rw [map_withMoved_of_affected? hname hnone]
  · next source hsome =>
    show others name ((withLookup field name _ d.tables).map (withMoved field name)) = _
    rw [others_map_withMoved, others_map_withMoved, others_withLookup]

/-- **Which tables are linked to the lookup table**: of those that declared the field, just those in
which the name of the link was free and the field declared once, and those which were linked before
by another field. -/
theorem linksTo_normalize_iff {i : Nat} {t : Table}
    (ht : (others (lookupName field lookup) d.tables)[i]? = some t)
    (hfield : (t.field? field).isSome = true) :
    ∃ t', (others (lookupName field lookup) (d.normalize field lookup).tables)[i]? = some t' ∧
      (t'.LinksTo (lookupName field lookup) ↔
        (t.field? (lookupName field lookup ++ "_id") = none ∧
          t.fields.countP (·.name = field) = 1) ∨
        (field ≠ lookupName field lookup ++ "_id" ∧ t.LinksTo (lookupName field lookup))) := by
  have haffected : t.isAffected field (lookupName field lookup) = true := by
    have hmem := (List.mem_filter.1 (List.mem_of_getElem? ht)).2
    simpa [isAffected, hfield] using hmem
  refine ⟨t.referToLookup field (lookupName field lookup), ?_, linksTo_referToLookup_iff t _ _⟩
  rw [others_normalize rfl, List.getElem?_map, ht, Option.map_some, withMoved, if_pos haffected]

/-- A table with a link to a table of states. -/
def linked : Table where
  name := "order"
  fields :=
    [{ name := "status_id", modifiers := { fk := true }, reference := some { table := "status" } },
      { name := "status", type := some "text" }]

/-- A table without a link. -/
def unlinked : Table := ⟨"shipment", [{ name := "id" }, { name := "status", type := some "text" }]⟩

theorem linksTo_normalize_iff_unlinked :
    (others "status" [linked, unlinked])[1]? = some unlinked ∧
      (unlinked.field? "status").isSome = true ∧
      ∃ t, (others "status" (normalize { tables := [linked, unlinked] } "status" none).tables)[1]? =
          some t ∧ t.LinksTo "status" := by
  have ht : (others (lookupName "status" none) [linked, unlinked])[1]? = some unlinked := rfl
  obtain ⟨t, h, hiff⟩ := linksTo_normalize_iff (d := { tables := [linked, unlinked] }) ht rfl
  exact ⟨ht, rfl, t, h, hiff.2 (.inl (by decide))⟩

example : others "status" (normalize { tables := [linked] } "status" none).tables =
    [⟨"order", [{ name := "status_id", modifiers := { fk := true },
                  reference := some { table := "status" } }]⟩] := by decide

/-- **A link may be lost**: the field that is moved is taken for the link. -/
theorem not_linksTo_normalize :
    normalize { tables := [⟨"t", [{ name := "a_id", type := some "int" }]⟩] } "a_id" (some "a") =
      { tables := [⟨"t", []⟩, ⟨"a", [{ name := "id", modifiers := { pk := true } },
          { name := "a_id", type := some "int" }]⟩] } ∧
      ¬(⟨"t", []⟩ : Table).LinksTo "a" := by
  decide

end Diagram

end ErDiagram
