import ErDiagram.Proofs.Normalization.Linking

/-!
# A field extracted into a lookup table

A field is *confined* to its lookup table when no table of another name declares it.  A diagram in
which this is so already is left alone, and of every other one the field is extracted completely and
at once, with nothing else touched (`Diagram.extracts_normalize`).  The tables stay in order under
their names, and they lose nothing but declarations of the field, each of which may have a link in
its place (`Table.Relinked`).  Apart from links only the first lookup table can gain anything,
namely the field, and it either is one of the tables or is put among them (`Table.Extracted`).

None of this needs the diagram to be in order: tables may share a name, a table may declare the
field twice, and the field may be named like the lookup table or like the link to it.
-/

set_option autoImplicit false

namespace ErDiagram

namespace Table

variable {field lookup : String} {t : Table} {f : Field} {fs gs : List Field} {ts : List Table}

/-! ## What may become of the tables

The relations say what may happen to the fields of one table, to one table, and to a list of tables.
They leave open which declarations get a link in their place, as that is the matter of
`ErDiagram.Proofs.Normalization.Linking`; what they rule out is that anything else is lost, added or
moved. -/

/-- Fields with every declaration of a field taken away, or a link to the lookup table in its
place. -/
inductive Relinked (field lookup : String) : List Field → List Field → Prop
  | nil : Relinked field lookup [] []
  | keep {f : Field} {fs gs : List Field} (hf : f.name ≠ field) (h : Relinked field lookup fs gs) :
      Relinked field lookup (f :: fs) (f :: gs)
  | drop {f : Field} {fs gs : List Field} (hf : f.name = field) (h : Relinked field lookup fs gs) :
      Relinked field lookup (f :: fs) gs
  | link {f g : Field} {fs gs : List Field} (hf : f.name = field) (hg : g.name = lookup ++ "_id")
      (href : g.reference = some { table := lookup }) (h : Relinked field lookup fs gs) :
      Relinked field lookup (f :: fs) (g :: gs)

/-- A table of which a field is extracted.  One that is named like the lookup table stays as it
is. -/
inductive KeptAs (field lookup : String) : Table → Table → Prop
  | lookup {t : Table} (ht : t.name = lookup) : KeptAs field lookup t t
  | other {t : Table} {fs : List Field} (ht : t.name ≠ lookup)
      (h : Relinked field lookup t.fields fs) : KeptAs field lookup t { t with fields := fs }

/-- Tables of which a field is extracted into a lookup table. -/
inductive Extracted (field lookup : String) : List Table → List Table → Prop
  /-- There was no lookup table, and a new one stands among the others. -/
  | created {ts before after : List Table} {value : Field} (hts : ∀ t ∈ ts, t.name ≠ lookup)
      (hkept : List.Forall₂ (KeptAs field lookup) ts (before ++ after))
      (hvalue : value.name = field) :
      Extracted field lookup ts (before ++ newLookup lookup value :: after)
  /-- The first lookup table has gained the field if it lacked it. -/
  | reused {before after before' after' : List Table} {t : Table} {gained : Option Field}
      (hbefore : ∀ t ∈ before, t.name ≠ lookup) (ht : t.name = lookup)
      (hgained : ∀ g ∈ gained, g.name = field)
      (hdeclares : (t.field? field).isSome = gained.isNone)
      (hkept : List.Forall₂ (KeptAs field lookup) before before')
      (hkept' : List.Forall₂ (KeptAs field lookup) after after') :
      Extracted field lookup (before ++ t :: after)
        (before' ++ { t with fields := t.fields ++ gained.toList } :: after')

/-! ## One table

A table that is not the lookup table loses its declarations of the field, with or without a link, so
it declares the field no more, unless the link itself is named like the field.  That case does not
arise: a field of that name is there before, and then there are no links. -/

theorem relinked_of_forall_ne (h : ∀ f ∈ fs, f.name ≠ field) : Relinked field lookup fs fs := by
  induction fs with
  | nil => exact .nil
  | cons f fs ih =>
    obtain ⟨hf, hfs⟩ := List.forall_mem_cons.1 h
    exact .keep hf (ih hfs)

theorem relinked_referToLookup (t : Table) (field lookup : String) :
    Relinked field lookup t.fields (t.referToLookup field lookup).fields := by
  simp only [referToLookup]
  generalize (t.field? (lookupReference lookup).name).isSome = present
  generalize t.fields = fs
  induction fs with
  | nil => exact .nil
  | cons f fs ih =>
    rw [List.flatMap_cons]
    by_cases hf : f.name = field
    · rw [if_neg (not_not.2 hf)]
      cases present with
      | true => exact .drop hf ih
      | false => exact .link hf rfl rfl ih
    · rw [if_pos hf]
      exact .keep hf ih

theorem Relinked.name_ne (h : Relinked field lookup fs gs) (hlink : lookup ++ "_id" ≠ field) :
    ∀ g ∈ gs, g.name ≠ field := by
  induction h with
  | nil => exact List.forall_mem_nil _
  | keep hf _ ih => exact List.forall_mem_cons.2 ⟨hf, ih⟩
  | drop _ _ ih => exact ih
  | link _ hg _ _ ih => exact List.forall_mem_cons.2 ⟨hg ▸ hlink, ih⟩

theorem keptAs_withMoved (field lookup : String) (t : Table) :
    KeptAs field lookup t (t.withMoved field lookup) := by
  rw [withMoved]
  split
  · next h =>
    rw [isAffected, Bool.and_eq_true] at h
    exact .other (by simpa using h.1) (relinked_referToLookup t field lookup)
  · next h =>
    by_cases ht : t.name = lookup
    · exact .lookup ht
    · have hnone : t.field? field = none := by simpa [isAffected, ht] using h
      exact .other ht (relinked_of_forall_ne (field?_eq_none_iff.1 hnone))

theorem withMoved_of_eq (h : t.name = lookup) : t.withMoved field lookup = t :=
  if_neg (by simp [isAffected, h])

theorem forall₂_keptAs (field lookup : String) (ts : List Table) :
    List.Forall₂ (KeptAs field lookup) ts (ts.map (withMoved field lookup)) :=
  List.forall₂_map_right_iff.2 (List.forall₂_same.2 fun t _ ↦ keptAs_withMoved field lookup t)

/-- Only the lookup table can declare a field that was moved. -/
theorem field?_withMoved (h : t.name ≠ lookup) :
    (t.withMoved field lookup).field? field = none := by
  rw [withMoved]
  split
  · next haffected =>
    rw [isAffected, Bool.and_eq_true] at haffected
    refine field?_eq_none_iff.2 ?_
    -- A link that is named like the field would be the field itself, and then none is put in.
    by_cases hlink : lookup ++ "_id" = field
    · rw [fields_referToLookup_of_isSome (hlink ▸ haffected.2)]
      simp
    · exact (relinked_referToLookup t field lookup).name_ne hlink
  · next hother => simpa [isAffected, h] using hother

/-! ## The lookup table

The lookup table is either found or put in.  In both cases the tables can be divided at it, and what
stands in front of it and behind it is treated table by table. -/

theorem exists_insertAfterLast (p : Table → Bool) (new : Table) (ts : List Table) :
    ∃ before after, ts = before ++ after ∧ insertAfterLast p new ts = before ++ new :: after := by
  induction ts with
  | nil => exact ⟨[], [], rfl, rfl⟩
  | cons t ts ih =>
    rw [insertAfterLast]
    split
    · obtain ⟨before, after, hts, hnew⟩ := ih
      exact ⟨t :: before, after, congrArg _ hts, congrArg _ hnew⟩
    · exact ⟨[t], ts, rfl, rfl⟩

theorem extendFirst_append_cons {before after : List Table}
    (hbefore : ∀ t ∈ before, t.name ≠ lookup) (ht : t.name = lookup) :
    extendFirst lookup f (before ++ t :: after) =
      before ++ { t with fields := t.fields ++
        (if (t.field? f.name).isSome then none else some f).toList } :: after := by
  induction before with
  | nil =>
    rw [List.nil_append, List.nil_append, extendFirst, if_pos ht]
    split <;> simp
  | cons b before ih =>
    obtain ⟨hb, hbefore⟩ := List.forall_mem_cons.1 hbefore
    rw [List.cons_append, extendFirst, if_neg hb, ih hbefore, List.cons_append]

/-- **Moving a field in the tables extracts it.** -/
theorem extracted_withLookup {value : Field} (hvalue : value.name = field) (ts : List Table) :
    Extracted field lookup ts
      ((withLookup field lookup value ts).map (withMoved field lookup)) := by
  rw [withLookup]
  split
  · next h =>
    -- the look-up table is there and gets the field; it is not one that the field leaves
    obtain ⟨t, hfind⟩ := Option.isSome_iff_exists.1 h
    obtain ⟨ht, before, after, rfl, hbefore⟩ := List.find?_eq_some_iff_append.1 hfind
    have ht : t.name = lookup := by simpa using ht
    have hbefore : ∀ t ∈ before, t.name ≠ lookup := by simpa using hbefore
    have hkept (fs : List Field) : withMoved field lookup { t with fields := fs } =
        { t with fields := fs } := withMoved_of_eq ht
    rw [extendFirst_append_cons hbefore ht, List.map_append, List.map_cons, hkept]
    refine .reused hbefore ht ?_ ?_ (forall₂_keptAs field lookup _) (forall₂_keptAs field lookup _)
    · intro g hg
      split at hg <;> cases hg
      exact hvalue
    · rw [hvalue]
      cases (t.field? field).isSome <;> rfl
  · next h =>
    have hts : ∀ t ∈ ts, t.name ≠ lookup := by simpa [find?] using h
    obtain ⟨before, after, rfl, hnew⟩ := exists_insertAfterLast (·.isAffected field lookup)
      (newLookup lookup value) ts
    rw [hnew, List.map_append, List.map_cons, withMoved_of_eq (show _ = lookup from rfl)]
    refine .created hts ?_ hvalue
    rw [← List.map_append]
    exact forall₂_keptAs field lookup _

/-! ### The lookup table afterwards

The first table of the name is the one in question, as the tables in front of it keep their names.
It declares the field because it did so before or because it has gained it. -/

theorem map_name_of_keptAs {ts' : List Table} (h : List.Forall₂ (KeptAs field lookup) ts ts') :
    ts'.map name = ts.map name := by
  induction h with
  | nil => rfl
  | cons ht _ ih =>
    rw [List.map_cons, List.map_cons, ih]
    cases ht <;> rfl

theorem find?_append_cons {before after : List Table} (hbefore : lookup ∉ before.map name)
    (ht : t.name = lookup) : find? (before ++ t :: after) lookup = some t :=
  List.find?_eq_some_iff_append.2 ⟨by simpa using ht, before, after, rfl, by simpa using hbefore⟩

/-- The first lookup table declares the field that was extracted. -/
theorem Extracted.exists_lookup {ts' : List Table} (h : Extracted field lookup ts ts') :
    ∃ t, find? ts' lookup = some t ∧ (t.field? field).isSome = true := by
  cases h with
  | @created _ before after value hts hkept hvalue =>
    have hnone : lookup ∉ (before ++ after).map name := by
      rw [map_name_of_keptAs hkept]
      simpa using hts
    rw [List.map_append, List.mem_append, not_or] at hnone
    refine ⟨_, find?_append_cons hnone.1 rfl, ?_⟩
    simp [newLookup, field?, hvalue]
  | @reused before _ before' _ t gained hbefore ht hgained hdeclares hkept _ =>
    have hnone : lookup ∉ before'.map name := by
      rw [map_name_of_keptAs hkept]
      simpa using hbefore
    refine ⟨_, find?_append_cons (t := ⟨t.name, _⟩) hnone ht, ?_⟩
    cases gained with
    | none => simpa using hdeclares
    | some g => simp [field?, hgained g rfl]

end Table

namespace Diagram

open Table

variable {d : Diagram} {field : String} {lookup : Option String}

/-- No table but the lookup table declares a field. -/
def Confines (d : Diagram) (field lookup : String) : Prop :=
  ∀ t ∈ d.tables, t.name ≠ lookup → t.field? field = none

instance (d : Diagram) (field lookup : String) : Decidable (d.Confines field lookup) :=
  inferInstanceAs (Decidable (∀ t ∈ d.tables, t.name ≠ lookup → t.field? field = none))

/-- A diagram has a field of another diagram extracted into a lookup table, and nothing else
changed. -/
structure Extracts (field lookup : String) (d e : Diagram) : Prop where
  /-- The other tables declare the field no more. -/
  confines : e.Confines field lookup
  /-- The first lookup table declares it. -/
  declared : ∃ t, e.table? lookup = some t ∧ (t.field? field).isSome = true
  /-- Otherwise the tables are kept, but for links. -/
  tables : Extracted field lookup d.tables e.tables
  /-- The diagram is drawn in the same way. -/
  presentation : e.presentation = d.presentation

theorem affected?_eq_none_iff :
    d.affected? field lookup = none ↔ d.Confines field (lookupName field lookup) := by
  simp [affected?, Confines, isAffected, List.find?_eq_none]

theorem normalize_of_confines (h : d.Confines field (lookupName field lookup)) :
    d.normalize field lookup = d := by
  rw [normalize, affected?_eq_none_iff.2 h]

theorem confines_normalize (d : Diagram) (field : String) (lookup : Option String) :
    (d.normalize field lookup).Confines field (lookupName field lookup) := by
  intro t ht hname
  have hother : t ∈ others (lookupName field lookup) (d.normalize field lookup).tables :=
    List.mem_filter.2 ⟨ht, decide_eq_true hname⟩
  rw [others_normalize rfl] at hother
  obtain ⟨s, hs, rfl⟩ := List.mem_map.1 hother
  exact field?_withMoved (by simpa using (List.mem_filter.1 hs).2)

theorem extracts_of_not_confines (h : ¬d.Confines field (lookupName field lookup)) :
    Extracts field (lookupName field lookup) d (d.normalize field lookup) := by
  obtain ⟨source, hsource⟩ := Option.ne_none_iff_exists'.1 (affected?_eq_none_iff.not.2 h)
  have hextracted : Extracted field (lookupName field lookup) d.tables
      (d.normalize field lookup).tables := by
    have hvalue : Field.name
        { name := field, type := (source.field? field).bind Field.type } = field := rfl
    rw [normalize, hsource]
    exact extracted_withLookup hvalue d.tables
  refine ⟨confines_normalize d field lookup, hextracted.exists_lookup, hextracted, ?_⟩
  rw [normalize, hsource]

/-- Two tables named like a lookup table, of which only the second has the field, and two others of
one name that declare it, the first of them twice. -/
def scattered : Diagram :=
  { tables :=
      [⟨"order", [{ name := "status", type := some "text", modifiers := { null := true } },
          { name := "total" }, { name := "status" }]⟩,
        ⟨"status", [{ name := "id" }]⟩,
        ⟨"order", [{ name := "status_id" }, { name := "status" }]⟩,
        ⟨"status", [{ name := "status" }]⟩],
    presentation := .ofDirectives [] }

example : (scattered.normalize "status" none).tables =
    [⟨"order", [{ lookupReference "status" with modifiers := { fk := true, null := true } },
        { name := "total" }, lookupReference "status"]⟩,
      ⟨"status", [{ name := "id" }, { name := "status", type := some "text" }]⟩,
      ⟨"order", [{ name := "status_id" }]⟩,
      ⟨"status", [{ name := "status" }]⟩] := by decide

end Diagram

end ErDiagram
