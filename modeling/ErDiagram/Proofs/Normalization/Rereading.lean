import ErDiagram.Proofs.Diagram.RoundTrip
import ErDiagram.Proofs.Normalization.Linking

/-!
# Reading a normalized text

The tables of a text are well-formed if no default value is the number that reads as a relation and
every reference is to a name (`Field.Declarable.wellFormed`).  Moving a field into a lookup table
with a name keeps them well-formed (`Diagram.wellFormed_normalize`): what is put in their place is
spelled as the grammar asks.  So a normalized text is read as the tables that were normalized
(`Diagram.tables_ofText_normalizeText`).

That a text is read as what was written is known for all well-formed tables from
`ErDiagram.Proofs.Diagram.RoundTrip`, so nothing is read here.  What has to be shown is that
normalization does not leave this class, and there the one thing that is not in the tables already
is the name of the lookup table: it comes from outside and has to be a name, and with it the name of
every link is one too.
-/

set_option autoImplicit false

namespace ErDiagram

open Lexeme

/-! ## Fields and tables that are put in

New are the link, the `id` of a new lookup table, and the field in it, which keeps its type and
nothing else.  All of them are spelled out from names, and the ending `_id` keeps a name a name. -/

theorem Field.Declarable.wellFormed {f : Field} (h : f.Declarable)
    (hdefault : f.default ≠ some "-0") (href : ∀ r ∈ f.reference, IsName r.table.toList) :
    f.WellFormed := by
  refine { h with default_ne := hdefault, reference := fun r hr ↦ ?_ }
  rcases h.reference r hr with hr' | ⟨-, hfield, hrelation⟩
  · exact hr'
  · exact ⟨href r hr, hfield ▸ isName_id, hrelation⟩

/-- A field without modifiers, a reference and a default value. -/
theorem Field.wellFormed_of_type {name : String} {type : Option String}
    (hname : IsName name.toList) (htype : ∀ t ∈ type, IsType t.toList ∧ Text.IsUnbroken t.toList) :
    Field.WellFormed { name, type } where
  name := hname
  type := htype
  other := rfl
  fk := rfl
  default := by simp
  default_ne := by simp
  reference := by simp

namespace Table

variable {t new : Table} {field lookup : String} {f : Field} {ts : List Table}

/-- The name of a lookup table with the ending `_id` is a name. -/
theorem isName_link (h : IsName lookup.toList) : IsName (lookup ++ "_id").toList := by
  have hending : ∀ c ∈ "_id".toList, isNameChar c = true := List.all_eq_true.1 (by decide)
  rw [String.toList_append]
  exact h.append hending

theorem wellFormed_link (h : IsName lookup.toList) (null : Bool) :
    Field.WellFormed { lookupReference lookup with modifiers := { fk := true, null } } where
  name := isName_link h
  type := by simp [lookupReference]
  other := rfl
  fk := rfl
  default := by simp [lookupReference]
  default_ne := by simp [lookupReference]
  reference := by
    rintro r ⟨⟩
    have hrelation : defaultRelation ∈ relationSpellings := by decide
    exact ⟨h, isName_id, hrelation⟩

theorem wellFormed_newLookup (h : IsName lookup.toList) (hf : f.WellFormed) :
    (newLookup lookup f).WellFormed := by
  have hid : Field.WellFormed { name := "id", modifiers := { pk := true } } :=
    { name := isName_id, type := by simp, other := rfl, fk := rfl, default := by simp,
      default_ne := by simp, reference := by simp }
  exact ⟨h.isHeader, List.forall_mem_cons.2 ⟨hid, List.forall_mem_singleton.2 hf⟩⟩

/-! ## Steps that keep tables well-formed

Being well-formed is asked of each table and each field by itself, so it is enough to look at what
each step puts in. -/

theorem WellFormed.referToLookup (h : t.WellFormed) (hlookup : IsName lookup.toList)
    (field : String) : (t.referToLookup field lookup).WellFormed := by
  refine ⟨h.name, fun f hf ↦ ?_⟩
  obtain ⟨g, hg, hf⟩ := List.mem_flatMap.1 hf
  split at hf
  · rw [List.mem_singleton.1 hf]
    exact h.fields g hg
  · split at hf
    · cases hf
    · rw [List.mem_singleton.1 hf]
      exact wellFormed_link hlookup _

theorem wellFormed_extendFirst (name : String) (hf : f.WellFormed) (h : ∀ t ∈ ts, t.WellFormed) :
    ∀ t ∈ extendFirst name f ts, t.WellFormed := by
  induction ts with
  | nil => exact h
  | cons t ts ih =>
    obtain ⟨ht, hts⟩ := List.forall_mem_cons.1 h
    rw [extendFirst]
    split
    · refine List.forall_mem_cons.2 ⟨?_, hts⟩
      split
      · exact ht
      · exact ⟨ht.name, List.forall_mem_append.2 ⟨ht.fields, List.forall_mem_singleton.2 hf⟩⟩
    · exact List.forall_mem_cons.2 ⟨ht, ih hts⟩

theorem wellFormed_insertAfterLast (p : Table → Bool) (hnew : new.WellFormed)
    (h : ∀ t ∈ ts, t.WellFormed) : ∀ t ∈ insertAfterLast p new ts, t.WellFormed := by
  induction ts with
  | nil => exact List.forall_mem_singleton.2 hnew
  | cons t ts ih =>
    obtain ⟨ht, hts⟩ := List.forall_mem_cons.1 h
    rw [insertAfterLast]
    split
    · exact List.forall_mem_cons.2 ⟨ht, ih hts⟩
    · exact List.forall_mem_cons.2 ⟨ht, List.forall_mem_cons.2 ⟨hnew, hts⟩⟩

theorem wellFormed_withLookup (hlookup : IsName lookup.toList) (hf : f.WellFormed)
    (h : ∀ t ∈ ts, t.WellFormed) : ∀ t ∈ withLookup field lookup f ts, t.WellFormed := by
  rw [withLookup]
  split
  · exact wellFormed_extendFirst lookup hf h
  · exact wellFormed_insertAfterLast _ (wellFormed_newLookup hlookup hf) h

end Table

namespace Diagram

open Table

variable {d : Diagram} {field : String} {lookup : Option String}

/-! ### Diagrams

The name of the lookup table is given, or else it is that of the field.  A field that is moved has
been declared by some table, so in a well-formed diagram its name is a name. -/

/-- The lookup table has a name if it is given one or is named like a field. -/
theorem isName_lookupName (hfield : IsName field.toList)
    (hlookup : ∀ n ∈ lookup, IsName n.toList) : IsName (lookupName field lookup).toList := by
  cases lookup with
  | none => exact hfield
  | some n =>
    rw [lookupName]
    split
    · exact hfield
    · exact hlookup n rfl

/-- **Moving a field keeps tables well-formed.** -/
theorem wellFormed_normalize (h : ∀ t ∈ d.tables, t.WellFormed)
    (hlookup : ∀ n ∈ lookup, IsName n.toList) :
    ∀ t ∈ (d.normalize field lookup).tables, t.WellFormed := by
  rw [normalize]
  split
  · exact h
  next source hsource =>
  have hmem := List.mem_of_find?_eq_some hsource
  have haffected := List.find?_some hsource
  rw [isAffected, Bool.and_eq_true] at haffected
  obtain ⟨value, hvalue⟩ := Option.isSome_iff_exists.1 haffected.2
  have hwf := (h source hmem).fields value (List.mem_of_find?_eq_some hvalue)
  have hname : value.name = field := by simpa using List.find?_some hvalue
  have hfield : IsName field.toList := hname ▸ hwf.name
  -- the field that moves takes over the type it has where it is found
  have hnew : Field.WellFormed
      { name := field, type := (source.field? field).bind Field.type } := by
    refine Field.wellFormed_of_type hfield ?_
    rw [hvalue]
    exact hwf.type
  have hlookup := isName_lookupName hfield hlookup
  refine List.forall_mem_map.2 fun t ht ↦ ?_
  have ht := wellFormed_withLookup hlookup hnew h t ht
  split
  · exact ht.referToLookup hlookup field
  · exact ht

/-- The tables of a text are well-formed if no default value reads as a relation and all references
are to names. -/
theorem wellFormed_of_ofText {text : String} (h : ofText text = .ok d)
    (hdefault : ∀ t ∈ d.tables, ∀ f ∈ t.fields, f.default ≠ some "-0")
    (href : ∀ t ∈ d.tables, ∀ f ∈ t.fields, ∀ r ∈ f.reference, IsName r.table.toList) :
    ∀ t ∈ d.tables, t.WellFormed := by
  intro t ht
  obtain ⟨htables, -⟩ := ofText_eq_ok_iff.1 h
  have hdeclarable := declarable_of_mem_ofLines t (htables ▸ ht)
  exact ⟨hdeclarable.name, fun f hf ↦
    (hdeclarable.fields f hf).wellFormed (hdefault t ht f hf) (href t ht f hf)⟩

/-- **A normalized text is read as the tables that were normalized.** -/
theorem tables_ofText_normalizeText {text s : String} (h : ofText text = .ok d)
    (hdefault : ∀ t ∈ d.tables, ∀ f ∈ t.fields, f.default ≠ some "-0")
    (href : ∀ t ∈ d.tables, ∀ f ∈ t.fields, ∀ r ∈ f.reference, IsName r.table.toList)
    (hlookup : ∀ n ∈ lookup, IsName n.toList) (hs : normalizeText text field lookup = .ok s) :
    ∃ e, ofText s = .ok e ∧ e.tables = (d.normalize field lookup).tables := by
  obtain ⟨d', hd, hs⟩ := bind_eq_ok_iff.1 hs
  obtain rfl := Except.ok.inj (h.symm.trans hd)
  exact tables_ofText_text (wellFormed_normalize (wellFormed_of_ofText h hdefault href) hlookup) hs

/-- A table with a field that is named like a keyword, and with a reference. -/
def keyworded : Diagram :=
  { tables := [⟨"t", [{ name := "null", type := some "int" },
      { name := "u_id", modifiers := { fk := true }, reference := some { table := "u" } }]⟩]
    presentation := .ofDirectives [] }

/-- A text that is read as this table. -/
def keywordedText : String := "t\n-\nnull int\nu_id fk\n"

/-- The text with the field moved into a table `k`. -/
def normalizedText : String :=
  "t\n-\nk_id fk >- k.id\nu_id fk >- u.id\n\nk\n-\nid pk\nnull int\n"

theorem ofText_keywordedText : ofText keywordedText = .ok keyworded :=
  ofText_of_read (by decide +kernel) rfl

theorem normalizeText_keywordedText :
    normalizeText keywordedText "null" (some "k") = .ok normalizedText := by
  rw [normalizeText, ofText_keywordedText]
  decide +kernel

theorem tables_ofText_normalizeText_keyworded :
    ofText keywordedText = .ok keyworded ∧
      (∀ t ∈ keyworded.tables, ∀ f ∈ t.fields, f.default ≠ some "-0") ∧
      (∀ t ∈ keyworded.tables, ∀ f ∈ t.fields, ∀ r ∈ f.reference, IsName r.table.toList) ∧
      (∀ n ∈ some "k", IsName n.toList) ∧
      normalizeText keywordedText "null" (some "k") = .ok normalizedText ∧
      ∃ e, ofText normalizedText = .ok e ∧
        e.tables = (keyworded.normalize "null" (some "k")).tables := by
  have hname {c : Char} (hc : isNameStart c = true) : IsName [c] := ⟨hc, .nil⟩
  have hdefault : ∀ t ∈ keyworded.tables, ∀ f ∈ t.fields, f.default ≠ some "-0" := by decide
  have href : ∀ t ∈ keyworded.tables, ∀ f ∈ t.fields, ∀ r ∈ f.reference,
      IsName r.table.toList := by
    have hu : IsName ['u'] := hname (by decide)
    simpa [keyworded] using hu
  have hlookup : ∀ n ∈ some "k", IsName n.toList := by
    rintro n ⟨⟩
    exact hname (by decide)
  exact ⟨ofText_keywordedText, hdefault, href, hlookup, normalizeText_keywordedText,
    tables_ofText_normalizeText ofText_keywordedText hdefault href hlookup
      normalizeText_keywordedText⟩

end Diagram

end ErDiagram
