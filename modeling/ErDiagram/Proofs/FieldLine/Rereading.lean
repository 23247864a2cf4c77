import ErDiagram.Diagram.Writing
import ErDiagram.Proofs.FieldLine.Shape

/-!
# Reading the line of a field back

Every line that is written for a declarable field declares a field again.  A well-formed field is
read back as it is (`Field.WellFormed.ofText?_text`).  Of the other declarable fields it is just the
`Field.Restorable` ones that are (`Field.Declarable.ofText?_text_iff`): a default value `-0` reads
as a relation, and a reference to a table that is no name falls apart into the type `id` and
whatever the rest of the table means.

The proof goes along the line.  The words that are written for each part of a field form a segment
with known items (`exists_items`); the items are folded into a draft, first those for all but the
reference, which give the field without its reference (`scalarDraft`), and then those for the
reference.  What comes out is described by `RereadAs` in four cases, one for each way in which the
target of a reference can fall into tokens, and the theorems compare it with the field.
-/

set_option autoImplicit false

namespace ErDiagram

open Lexeme Text

/-! ## What is found again

A reference to a table that is no name arises when the name of a field suggests it: from `_id` the
empty name, and from `t-_id` the name `t-`.  Written out, its target is not one token.  The
reference is found again all the same where the relation before it finds no operand, since it is
then left to the name of the field, and where nothing else in the target changes the field. -/

/-- The reference of a field is found again in the line of the field.  The table may be no name if
the field has a type, so that the word `id` behind the point is none, and if what stands for the
table is nothing or a keyword that says nothing new. -/
def Reference.Restorable (f : Field) (r : Reference) : Prop :=
  IsName r.table.toList ∨ f.type ≠ none ∧ (r.table = "" ∨
    ∃ k w, Keyword.ofName? w = some k ∧ r.table.toList = w ++ ['-'] ∧
      ∀ m ∈ k.modifier?, f.modifiers.contains m = true)

/-- A field is found again in its line. -/
structure Field.Restorable (f : Field) : Prop where
  /-- The default value does not read as a relation. -/
  default_ne : f.default ≠ some "-0"
  /-- What the field refers to is found again. -/
  reference : ∀ r ∈ f.reference, r.Restorable f

theorem Field.WellFormed.restorable {f : Field} (h : f.WellFormed) : f.Restorable :=
  ⟨h.default_ne, fun r hr ↦ .inl (h.reference r hr).table⟩

/-! ## The words of a reference

The target of a reference is a token if the table is a name.  If the table is empty, the line has a
point and the word `id` there.  If it is a name with a hyphen behind it, the name is read, the
hyphen is passed over, and again a point and the word `id` follow; what the name means then depends
on whether it is a keyword. -/

/-- What the words of a reference make up. -/
inductive Reference.ReadAs (r : Reference) : List Item → Prop
  | named (h : r.WellFormed) : ReadAs r [.foreignKey none, .relation r.relation (some r)]
  | empty (ht : r.table = "") :
      ReadAs r [.foreignKey none, .relation r.relation none, .ignored ".", .type "id"]
  | word {w : String} (hw : Spells .word w.toList) (ht : r.table = w ++ "-") :
      ReadAs r [.foreignKey none, .relation r.relation (some ⟨w, "id", r.relation⟩), .ignored ".",
        .type "id"]
  | keyword {k : Keyword} {w : String} (hw : Spells (.keyword k) w.toList)
      (ht : r.table = w ++ "-") :
      ReadAs r [.foreignKey none, .relation r.relation none, .ofKeyword k w, .ignored ".",
        .type "id"]

/-- What the words for what a field refers to make up. -/
def Field.RefersAs (f : Field) (items : List Item) : Prop :=
  match f.reference with
  | none => items = []
  | some r => r.ReadAs items

theorem exists_append_withoutIdSuffix (name : String) :
    ∃ rest, name.toList = (withoutIdSuffix name).toList ++ rest := by
  rw [withoutIdSuffix]
  split
  · next stem h =>
    refine ⟨['_', 'i', 'd'], ?_⟩
    rw [List.reverse_eq_iff] at h
    rw [h, String.toList_ofList]
    simp
  · exact ⟨[], (List.append_nil _).symm⟩

/-- The table that a name suggests is a name but for two exceptions. -/
theorem Reference.SuggestedBy.table_cases {name : String} {r : Reference}
    (h : r.SuggestedBy name) (hname : IsName name.toList) :
    r.table = "" ∨ IsName r.table.toList ∨ ∃ w : String, IsName w.toList ∧ r.table = w ++ "-" := by
  obtain ⟨rest, hrest⟩ := exists_append_withoutIdSuffix name
  rw [← h.table] at hrest
  rw [hrest] at hname
  rcases hname.of_append with hnil | htable | ⟨v, hv, htable⟩
  · exact .inl (String.toList_eq_nil_iff.1 hnil)
  · exact .inr (.inl htable)
  · refine .inr (.inr ⟨String.ofList v, by rwa [String.toList_ofList], ?_⟩)
    rw [← String.toList_inj, htable, String.toList_append, String.toList_ofList]
    rfl

namespace Segment

open Item

/-- A reference to a table and a field that are names. -/
theorem reference_named {r : Reference} (h : r.WellFormed) :
    ∃ ls, Segment (["fk", r.relation, r.table ++ "." ++ r.field].map String.toList) ls
      [.foreignKey none, .relation r.relation (some r)] ∧ StartsWithKeyword ls := by
  have htext : (r.table ++ "." ++ r.field).toList = r.table.toList ++ '.' :: r.field.toList := by
    simp [String.toList_append]
  have hne : r.field.toList ≠ [] := by
    intro hnil
    have := h.field
    rwa [hnil] at this
  have := reference (List.mem_map_of_mem h.relation) ⟨_, _, h.table, h.field, htext⟩
  rw [htext, Reference.ofTarget_target h.table hne] at this
  simp only [String.ofList_toList] at this
  simpa only [List.map_cons, List.map_nil, htext] using this

/-- The words of a reference that some line can declare. -/
theorem exists_readAs {name : String} (hname : IsName name.toList) {r : Reference}
    (h : r.WellFormed ∨ r.SuggestedBy name) : ∃ items, r.ReadAs items ∧
      ∃ ls, Segment (["fk", r.relation, r.table ++ "." ++ r.field].map String.toList) ls items ∧
        StartsWithKeyword ls := by
  rcases h with h | h
  · exact ⟨_, .named h, reference_named h⟩
  have hrelation : IsRelation r.relation.toList := List.mem_map_of_mem h.relation
  rcases h.table_cases hname with ht | ht | ⟨w, hw, ht⟩
  · refine ⟨_, .empty ht, ?_⟩
    have := reference_empty hrelation
    rw [String.ofList_toList] at this
    simpa [ht, h.field] using this
  · have hr : r.WellFormed := ⟨ht, by rw [h.field]; exact isName_id, h.relation⟩
    exact ⟨_, .named hr, reference_named hr⟩
  · -- reading passes over the hyphen at the end of the name, and what is left may be a keyword
    have htext : (r.table ++ "." ++ r.field).toList = w.toList ++ ['-', '.', 'i', 'd'] := by
      simp [ht, h.field]
    cases hk : Keyword.ofName? w.toList with
    | none =>
      refine ⟨_, .word ⟨hw, hk⟩ ht, ?_⟩
      have := reference_word hrelation ⟨hw, hk⟩
      simp only [String.ofList_toList, Reference.ofTarget_name hw] at this
      simpa only [List.map_cons, List.map_nil, htext] using this
    | some k =>
      refine ⟨_, .keyword ⟨hw, hk⟩ ht, ?_⟩
      have := reference_keyword hrelation ⟨hw, hk⟩
      simp only [String.ofList_toList] at this
      simpa only [List.map_cons, List.map_nil, htext] using this

end Segment

/-! ## The words of a field line

The words of a field are its name and then one stretch for each part that it has.  A part that it
lacks is a segment without words, so the segments are put in a row without a case distinction over
which parts are there. -/

/-- What the words for a default value make up. -/
def Item.ofDefault (v : String) : List Item :=
  if v = "-0" then [.ignored "default", .relation "-0" none] else [.default v]

namespace Segment

open Item

/-- The words of a modifier that a field has or not. -/
theorem modifier_if {k : Keyword} {m : Modifier} (h : k.modifier? = some m) (b : Bool) :
    ∃ ls, Segment ((if b then [k.spelling] else []).map String.toList) ls
      (if b then [.modifier m] else []) ∧ StartsWithKeyword ls := by
  cases b with
  | true => exact ⟨_, modifier h, startsWithKeyword_cons _ _ _⟩
  | false => exact ⟨_, nil, startsWithKeyword_nil⟩

theorem type_toList {type : Option String}
    (h : ∀ t ∈ type, IsType t.toList ∧ IsUnbroken t.toList) :
    ∃ ls, Segment ((type.filter (· ≠ "")).toList.map String.toList) ls
      (type.map Item.type).toList := by
  cases type with
  | none => exact ⟨_, nil⟩
  | some t =>
    have ht := h t rfl
    have hne : t ≠ "" := by
      rintro rfl
      exact (ht.1.isLine ht.2).ne_nil rfl
    obtain ⟨ls, hs⟩ := Segment.type ht.1
    rw [String.ofList_toList] at hs
    exact ⟨ls, by simpa [Option.filter, hne] using hs⟩

theorem default_toList {default : Option String} (h : ∀ v ∈ default, IsDefault v.toList) :
    ∃ ls, Segment ((match default with
      | some value => ["default", value]
      | none => []).map String.toList) ls ((default.map ofDefault).getD []) ∧
        StartsWithKeyword ls := by
  cases default with
  | none => exact ⟨_, nil, startsWithKeyword_nil⟩
  | some v =>
    by_cases hzero : v = "-0"
    · subst hzero
      exact default_minusZero
    · have hne : v.toList ≠ ['-', '0'] := fun heq ↦ hzero (String.toList_inj.1 heq)
      have := Segment.default (h v rfl) hne
      rw [String.ofList_toList] at this
      simpa [ofDefault, hzero] using this

theorem reference_toList {f : Field} (h : f.Declarable) : ∃ items, f.RefersAs items ∧
    ∃ ls, Segment ((match f.reference with
      | some r => ["fk", r.relation, r.table ++ "." ++ r.field]
      | none => if f.modifiers.fk then ["fk"] else []).map String.toList) ls items ∧
        StartsWithKeyword ls := by
  have hfk := h.fk
  have href := h.reference
  simp only [Field.RefersAs]
  cases hr : f.reference with
  | none =>
    rw [hr] at hfk
    rw [hfk]
    exact ⟨_, rfl, _, nil, startsWithKeyword_nil⟩
  | some r => exact exists_readAs h.name (href r hr)

end Segment

/-- The items of a field up to its reference. -/
def Field.scalarItems (f : Field) : List Item :=
  (f.type.map Item.type).toList ++
    (if f.modifiers.unsigned then [.modifier .unsigned] else []) ++
    (if f.modifiers.null then [.modifier .null] else []) ++
    (if f.modifiers.unique then [.modifier .unique] else []) ++
    (f.default.map Item.ofDefault).getD [] ++
    (if f.modifiers.pk then [.modifier .pk] else [])

/-- The words of a declarable field are read one after the other. -/
theorem Field.Declarable.exists_items {f : Field} (h : f.Declarable) : ∃ items,
    f.RefersAs items ∧
    FieldLine.ofText? f.text.toList = some ⟨f.name, f.scalarItems ++ items⟩ := by
  obtain ⟨items, hitems, ls, href, hrefKey⟩ := Segment.reference_toList h
  obtain ⟨_, htype⟩ := Segment.type_toList h.type
  obtain ⟨_, hunsigned, hunsignedKey⟩ :=
    Segment.modifier_if (k := .unsigned) rfl f.modifiers.unsigned
  obtain ⟨_, hnull, hnullKey⟩ := Segment.modifier_if (k := .null) rfl f.modifiers.null
  obtain ⟨_, hunique, huniqueKey⟩ := Segment.modifier_if (k := .unique) rfl f.modifiers.unique
  obtain ⟨_, hdefault, hdefaultKey⟩ := Segment.default_toList fun v hv ↦ (h.default v hv).1
  obtain ⟨_, hpk, hpkKey⟩ := Segment.modifier_if (k := .pk) rfl f.modifiers.pk
  -- every segment but the first starts with a keyword, so none reads on into the next
  have hall := (((((htype.append hunsigned hunsignedKey).append hnull hnullKey).append hunique
    huniqueKey).append hdefault hdefaultKey).append hpk hpkKey).append href hrefKey
  have htext : f.text.toList = spaced (f.name.toList :: (f.words.tail.map String.toList)) := by
    rw [Field.text, String.toList_intercalate]
    rfl
  refine ⟨items, hitems, ?_⟩
  have := hall.ofText?_spaced h.name
  rw [String.ofList_toList] at this
  rw [htext, scalarItems, ← this]
  simp only [Field.words, List.map_append, List.cons_append, List.nil_append, List.tail_cons]
  rfl

theorem Field.Declarable.ofText?_text {f : Field} (h : f.Declarable) : ∃ items, f.RefersAs items ∧
    Field.ofText? f.text.toList =
      some ((items.foldl Draft.add (f.scalarItems.foldl Draft.add {})).field f.name) := by
  obtain ⟨items, hitems, htext⟩ := h.exists_items
  refine ⟨items, hitems, ?_⟩
  rw [Field.ofText?, htext, Option.map_some, FieldLine.field, List.foldl_append]

/-! ## What the items amount to

The items up to the reference give back the type, the modifiers and the default value of the field
itself, if the default value is not `-0`.  With that value the line has no default value at all, and
this is enough to tell that the field is not read back. -/

/-- The draft of a field without its reference. -/
def Field.scalarDraft (f : Field) : Draft :=
  { type := f.type, modifiers := { f.modifiers with fk := false }, default := f.default }

/-- The items of a field up to its reference, with the default value as it is. -/
def Field.declaredItems (f : Field) : List Item :=
  (f.type.map Item.type).toList ++
    (if f.modifiers.unsigned then [.modifier .unsigned] else []) ++
    (if f.modifiers.null then [.modifier .null] else []) ++
    (if f.modifiers.unique then [.modifier .unique] else []) ++
    (f.default.map Item.default).toList ++
    (if f.modifiers.pk then [.modifier .pk] else [])

theorem Field.foldl_declaredItems {f : Field} (hother : f.modifiers.other = []) :
    f.declaredItems.foldl Draft.add {} = f.scalarDraft := by
  obtain ⟨name, type, ⟨fk, null, pk, unique, unsigned, other⟩, reference, default⟩ := f
  obtain rfl : other = [] := hother
  cases type <;> cases unsigned <;> cases null <;> cases unique <;> cases default <;> cases pk <;>
    rfl

theorem Field.scalarItems_eq_declaredItems {f : Field} (hdefault : f.default ≠ some "-0") :
    f.scalarItems = f.declaredItems := by
  have hitems : (f.default.map Item.ofDefault).getD [] = (f.default.map Item.default).toList := by
    cases hv : f.default with
    | none => rfl
    | some v => exact if_neg fun hzero : v = "-0" ↦ hdefault (hzero ▸ hv)
  rw [scalarItems, hitems, declaredItems]

theorem Field.foldl_scalarItems {f : Field} (hother : f.modifiers.other = [])
    (hdefault : f.default ≠ some "-0") : f.scalarItems.foldl Draft.add {} = f.scalarDraft := by
  rw [scalarItems_eq_declaredItems hdefault, foldl_declaredItems hother]

theorem Field.default_foldl_scalarItems {f : Field} (hdefault : f.default = some "-0") :
    (f.scalarItems.foldl Draft.add {}).default = none := by
  obtain ⟨name, type, ⟨fk, null, pk, unique, unsigned, other⟩, reference, default⟩ := f
  obtain rfl : default = some "-0" := hdefault
  have hitems : ((some "-0").map Item.ofDefault).getD [] =
      [.ignored "default", .relation "-0" none] := by decide
  simp only [scalarItems, hitems]
  cases type <;> cases unsigned <;> cases null <;> cases unique <;> cases pk <;> rfl

/-- The words of a reference declare no default value. -/
theorem Field.RefersAs.default_foldl {f : Field} {items : List Item} (h : f.RefersAs items)
    (d : Draft) : (items.foldl Draft.add d).default = d.default := by
  rw [RefersAs] at h
  split at h
  · rw [h]
    rfl
  · cases h with
    | keyword hw ht => rename_i k _; cases k <;> rfl
    | named | empty | word => rfl

/-! ## What is read back

The items of the reference are added to the draft so far.  In the exceptional cases the word `id`
becomes the type if there is none, a keyword may set a modifier, and the reference is made up anew
from the name of the field, unless a word before the hyphen was taken for its table.  Whether the
result is the field is then a question about its type and modifiers, which `Restorable` answers. -/

theorem isName_append_hyphen (w : List Char) : ¬ IsName (w ++ ['-']) := fun h ↦
  absurd (h.getLast '-' List.getLast?_concat) (by decide)

namespace Reference

variable {f : Field} {r : Reference} {w : String}

theorem not_isName_of_empty (ht : r.table = "") : ¬ IsName r.table.toList := by
  rw [ht]
  exact id

theorem toList_hyphen (ht : r.table = w ++ "-") : r.table.toList = w.toList ++ ['-'] := by
  rw [ht, String.toList_append]
  rfl

theorem not_isName_of_hyphen (ht : r.table = w ++ "-") : ¬ IsName r.table.toList := by
  rw [toList_hyphen ht]
  exact isName_append_hyphen _

theorem restorable_iff_of_empty (ht : r.table = "") : r.Restorable f ↔ f.type ≠ none :=
  (or_iff_right (not_isName_of_empty ht)).trans (and_iff_left (.inl ht))

theorem restorable_iff_of_hyphen (ht : r.table = w ++ "-") : r.Restorable f ↔
    f.type ≠ none ∧ ∃ k, Keyword.ofName? w.toList = some k ∧
      ∀ m ∈ k.modifier?, f.modifiers.contains m = true := by
  have hempty : r.table ≠ "" := fun h ↦ by simp [h] at ht
  rw [Restorable, or_iff_right (not_isName_of_hyphen ht), or_iff_right hempty, toList_hyphen ht]
  refine and_congr_right fun _ ↦ exists_congr fun k ↦ ⟨?_, fun ⟨hk, hm⟩ ↦ ⟨_, hk, rfl, hm⟩⟩
  rintro ⟨v, hk, hv, hm⟩
  rw [List.append_cancel_right hv]
  exact ⟨hk, hm⟩

theorem not_restorable_of_word (hw : Spells .word w.toList) (ht : r.table = w ++ "-") :
    ¬ r.Restorable f := by
  rw [restorable_iff_of_hyphen ht]
  rintro ⟨_, k, hk, _⟩
  rw [hw.2] at hk
  cases hk

theorem restorable_iff_of_keyword {k : Keyword} (hw : Spells (.keyword k) w.toList)
    (ht : r.table = w ++ "-") : r.Restorable f ↔
      f.type ≠ none ∧ ∀ m ∈ k.modifier?, f.modifiers.contains m = true := by
  rw [restorable_iff_of_hyphen ht, hw.2]
  simp

end Reference

/-! ### What a target may set besides

A target that is not one token leaves the word `id` in the line, and perhaps a keyword.  The word is
a type, which counts only if there is none before it, and the keyword may put a modifier into the
set, which changes nothing if it is there already. -/

/-- A type is missing or it counts. -/
theorem or_some_eq_self_iff {type : Option String} {t : String} :
    type.or (some t) = type ↔ type ≠ none := by
  cases type <;> simp

namespace Modifiers

/-- A set with one more modifier or none. -/
def insert? (ms : Modifiers) (m : Option Modifier) : Modifiers := (m.map ms.insert).getD ms

theorem insert_eq_self_iff {ms : Modifiers} {m : Modifier} :
    ms.insert m = ms ↔ ms.contains m = true := by
  obtain ⟨fk, null, pk, unique, unsigned, other⟩ := ms
  cases m <;> simp [insert, contains, eq_comm]

theorem insert?_eq_self_iff {ms : Modifiers} {m : Option Modifier} :
    ms.insert? m = ms ↔ ∀ n ∈ m, ms.contains n = true := by
  cases m with
  | none => simp [insert?]
  | some m => simpa [insert?] using insert_eq_self_iff

theorem contains_insert? (ms : Modifiers) (m : Option Modifier) :
    ∀ n ∈ m, (ms.insert? m).contains n = true :=
  insert?_eq_self_iff.1 <| by cases m <;> simp [insert?, insert_eq_self_iff, contains_insert]

theorem fk_insert? {ms : Modifiers} (h : ms.fk = true) (m : Option Modifier) :
    (ms.insert? m).fk = true := by
  rcases m with _ | m
  · exact h
  · cases m <;> first | rfl | exact h

end Modifiers

namespace Field

variable {f : Field} {r : Reference} {items : List Item}

/-! ### The draft behind the words of a reference

First `fk` and the relation are added to the draft, with the target if it is one token
(`relatedDraft`).  If it is, the draft describes the field again.  If it is not, what is left of the
target is added, and in the end the reference is suggested by the name as it was in the first place.
-/

/-- A field that refers to nothing is what its draft describes. -/
theorem field_scalarDraft (hfk : f.modifiers.fk = f.reference.isSome) (hr : f.reference = none) :
    f.scalarDraft.field f.name = f := by
  obtain ⟨name, type, ⟨fk, null, pk, unique, unsigned, other⟩, reference, default⟩ := f
  obtain rfl : reference = none := hr
  obtain rfl : fk = false := hfk
  rfl

/-- The draft of a field behind the word `fk` and a relation with a target or without. -/
def relatedDraft (f : Field) (relation : String) (target : Option Reference) : Draft :=
  { type := f.type, modifiers := f.modifiers, reference := target, default := f.default, relation }

theorem foldl_related (hfk : f.modifiers.fk = true) (relation : String)
    (target : Option Reference) (items : List Item) :
    (.foreignKey none :: .relation relation target :: items).foldl Draft.add f.scalarDraft =
      items.foldl Draft.add (f.relatedDraft relation target) := by
  obtain ⟨name, type, ⟨fk, null, pk, unique, unsigned, other⟩, reference, default⟩ := f
  obtain rfl : fk = true := hfk
  rfl

theorem field_relatedDraft (hr : f.reference = some r) :
    (f.relatedDraft r.relation (some r)).field f.name = f := by
  obtain ⟨name, type, modifiers, reference, default⟩ := f
  obtain rfl : reference = some r := hr
  simp [Draft.field, relatedDraft]

theorem foldl_ofKeyword (hfk : f.modifiers.fk = true) (relation : String) (k : Keyword)
    (s : String) :
    [.ofKeyword k s, .ignored ".", .type "id"].foldl Draft.add (f.relatedDraft relation none) =
      { f.relatedDraft relation none with
        type := f.type.or (some "id")
        modifiers := f.modifiers.insert? k.modifier? } := by
  obtain ⟨name, type, ⟨fk, null, pk, unique, unsigned, other⟩, reference, default⟩ := f
  obtain rfl : fk = true := hfk
  cases k <;> rfl

/-- A draft that refers to nothing gets the reference that the name suggests back. -/
theorem field_suggested (hr : f.reference = some r) (hsuggested : r.SuggestedBy f.name)
    {d : Draft} (hd : d.reference = none) (hfk : d.modifiers.fk = true)
    (hrelation : d.relation = r.relation) (hdefault : d.default = f.default) :
    d.field f.name = { f with type := d.type, modifiers := d.modifiers } := by
  obtain ⟨table, field, relation⟩ := r
  obtain ⟨htable, hfield, -⟩ := hsuggested
  obtain rfl : table = withoutIdSuffix f.name := htable
  obtain rfl : field = "id" := hfield
  simp only [Draft.field, hd, hfk, hrelation, hdefault, hr]
  rfl

theorem eq_self_iff {type : Option String} {ms : Modifiers} :
    { f with type := type, modifiers := ms } = f ↔ type = f.type ∧ ms = f.modifiers := by
  obtain ⟨name, type', modifiers, reference, default⟩ := f
  simp

theorem Declarable.suggestedBy (h : f.Declarable) (hr : f.reference = some r)
    (ht : ¬ IsName r.table.toList) : r.SuggestedBy f.name :=
  (h.reference r hr).resolve_left fun hw ↦ ht hw.table

/-! ### What a field is read as

The outcomes are listed once, and both directions of the theorem are read off the list: in each of
the cases it can be seen whether the field is the one that was written. -/

/-- What a field is when its line is read, if it has not the default value `-0`.  Where the
reference is to a table that is no name, the word `id` behind the point becomes a type. -/
inductive RereadAs (f : Field) : Field → Prop
  | same (h : ∀ r ∈ f.reference, IsName r.table.toList) : RereadAs f f
  | empty {r : Reference} (hr : f.reference = some r) (ht : r.table = "") :
      RereadAs f { f with type := f.type.or (some "id") }
  | word {r : Reference} {w : String} (hr : f.reference = some r) (hw : Spells .word w.toList)
      (ht : r.table = w ++ "-") :
      RereadAs f { f with
        type := f.type.or (some "id"), reference := some ⟨w, "id", r.relation⟩ }
  | keyword {r : Reference} {k : Keyword} {w : String} (hr : f.reference = some r)
      (hw : Spells (.keyword k) w.toList) (ht : r.table = w ++ "-") :
      RereadAs f { f with
        type := f.type.or (some "id"), modifiers := f.modifiers.insert? k.modifier? }

/-- What the draft behind the words of a reference describes. -/
theorem RefersAs.rereadAs (h : f.Declarable) (hitems : f.RefersAs items) :
    f.RereadAs ((items.foldl Draft.add f.scalarDraft).field f.name) := by
  rw [RefersAs] at hitems
  split at hitems
  · next hr =>
    rw [hitems, List.foldl_nil, field_scalarDraft h.fk hr]
    exact .same (by simp [hr])
  next r hr =>
  have hfk : f.modifiers.fk = true := by rw [h.fk, hr]; rfl
  cases hitems with
  | named hw =>
    rw [foldl_related hfk, List.foldl_nil, field_relatedDraft hr]
    exact .same (by simpa [hr] using hw.table)
  | empty ht =>
    have hsuggested := h.suggestedBy hr (Reference.not_isName_of_empty ht)
    rw [foldl_related hfk, field_suggested hr hsuggested rfl hfk rfl rfl]
    exact .empty hr ht
  | word hw ht =>
    -- the reference is to the table without the hyphen
    rw [foldl_related hfk]
    have hfield := RereadAs.word hr hw ht
    simpa [Draft.field, relatedDraft, Draft.add] using hfield
  | keyword hw ht =>
    have hsuggested := h.suggestedBy hr (Reference.not_isName_of_hyphen ht)
    rw [foldl_related hfk, foldl_ofKeyword hfk,
      field_suggested hr hsuggested rfl (Modifiers.fk_insert? hfk _) rfl rfl]
    exact .keyword hr hw ht

/-- A field is read as itself just in case its reference is restorable. -/
theorem RereadAs.eq_iff {g : Field} (h : f.RereadAs g) :
    g = f ↔ ∀ r ∈ f.reference, r.Restorable f := by
  cases h with
  | same h => exact iff_of_true rfl fun r hr ↦ .inl (h r hr)
  | empty hr ht =>
    have hall := Reference.restorable_iff_of_empty (f := f) ht
    rw [eq_self_iff, or_some_eq_self_iff]
    simpa [hr] using hall.symm
  | @word r w hr hw ht =>
    have hall := Reference.not_restorable_of_word (f := f) hw ht
    refine iff_of_false (fun heq ↦ ?_) (by simpa [hr] using hall)
    have htable := congrArg (·.table.toList.length)
      (Option.some.inj ((congrArg Field.reference heq).trans hr))
    simp [ht] at htable
  | keyword hr hw ht =>
    have hall := Reference.restorable_iff_of_keyword (f := f) hw ht
    rw [eq_self_iff, or_some_eq_self_iff, Modifiers.insert?_eq_self_iff]
    simpa [hr] using hall.symm

/-- What is read is found again in its own line. -/
theorem RereadAs.restorable {g : Field} (h : f.RereadAs g) (hdefault : f.default ≠ some "-0") :
    g.Restorable := by
  have htype : f.type.or (some "id") ≠ none := by cases f.type <;> simp
  cases h with
  | same h => exact ⟨hdefault, fun r hr ↦ .inl (h r hr)⟩
  | empty hr ht =>
    refine ⟨hdefault, fun s hs ↦ ?_⟩
    obtain rfl := Option.some.inj (hr.symm.trans hs)
    exact (Reference.restorable_iff_of_empty ht).2 htype
  | word hr hw ht =>
    refine ⟨hdefault, fun s hs ↦ .inl ?_⟩
    obtain rfl := Option.some.inj hs
    exact hw.1
  | @keyword _ k _ hr hw ht =>
    refine ⟨hdefault, fun s hs ↦ ?_⟩
    obtain rfl := Option.some.inj (hr.symm.trans hs)
    exact (Reference.restorable_iff_of_keyword hw ht).2
      ⟨htype, Modifiers.contains_insert? f.modifiers k.modifier?⟩

end Field

/-! ### Fields that are read back

The default value is looked at by itself.  With `-0` the line has one more relation and no default
value, and that is enough to tell the field that is read from the one that was written. -/

/-- The value `-0` is lost, and no other. -/
theorem Field.Declarable.default_of_ofText?_text {f g : Field} (h : f.Declarable)
    (hg : ofText? f.text.toList = some g) :
    g.default = if f.default = some "-0" then none else f.default := by
  obtain ⟨items, hitems, htext⟩ := h.ofText?_text
  obtain rfl := Option.some.inj (hg.symm.trans htext)
  have hdefault := hitems.default_foldl (f.scalarItems.foldl Draft.add {})
  split
  · next hzero => exact hdefault.trans (default_foldl_scalarItems hzero)
  · next hzero =>
    rw [foldl_scalarItems h.other hzero] at hdefault ⊢
    exact hdefault

theorem Field.Declarable.rereadAs {f g : Field} (h : f.Declarable)
    (hdefault : f.default ≠ some "-0") (hg : ofText? f.text.toList = some g) : f.RereadAs g := by
  obtain ⟨items, hitems, htext⟩ := h.ofText?_text
  obtain rfl := Option.some.inj (hg.symm.trans htext)
  rw [foldl_scalarItems h.other hdefault]
  exact hitems.rereadAs h

/-- **A declarable field is read back just in case it is restorable.** -/
theorem Field.Declarable.ofText?_text_iff {f : Field} (h : f.Declarable) :
    Field.ofText? f.text.toList = some f ↔ f.Restorable := by
  obtain ⟨items, _, htext⟩ := h.ofText?_text
  by_cases hzero : f.default = some "-0"
  · -- the value is lost
    refine iff_of_false (fun hg ↦ ?_) fun hr ↦ hr.default_ne hzero
    have hdefault := h.default_of_ofText?_text hg
    rw [if_pos hzero, hzero] at hdefault
    cases hdefault
  · rw [htext, Option.some_inj, (h.rereadAs hzero htext).eq_iff]
    exact ⟨fun href ↦ ⟨hzero, href⟩, fun hr ↦ hr.reference⟩

/-- **A well-formed field is read back.** -/
theorem Field.WellFormed.ofText?_text {f : Field} (h : f.WellFormed) :
    Field.ofText? f.text.toList = some f := h.declarable.ofText?_text_iff.2 h.restorable

/-! ## The line as a whole

A line that is written must come back as one line of the text: it is not empty, has no blanks at its
ends and no line break inside, and starts with the first character of a name, by which it is told
from other lines. -/

theorem isLine_keyword (k : Keyword) : IsLine k.spelling.toList :=
  isLine_of_any (by cases k <;> decide) (by cases k <;> decide)

theorem isLine_relation {relation : String} (h : relation ∈ relationSpellings) :
    IsLine relation.toList :=
  have hblank : ∀ s ∈ relationSpellings, s.toList ≠ [] ∧ s.toList.any isBlank = false := by
    decide
  isLine_of_any (hblank _ h).1 (hblank _ h).2

/-- The target of a reference that some line can declare has no blank in it. -/
theorem isLine_target {name : String} (hname : IsName name.toList) {r : Reference}
    (h : r.WellFormed ∨ r.SuggestedBy name) : IsLine (r.table ++ "." ++ r.field).toList := by
  have hblank : (∀ c ∈ r.table.toList, isBlank c = false) ∧
      ∀ c ∈ r.field.toList, isBlank c = false := by
    rcases h with h | h
    · exact ⟨h.table.not_blank, h.field.not_blank⟩
    · obtain ⟨rest, hrest⟩ := exists_append_withoutIdSuffix name
      rw [hrest] at hname
      rw [h.table, h.field]
      exact ⟨fun c hc ↦ hname.not_blank c (List.mem_append_left _ hc), isName_id.not_blank⟩
  refine isLine_of_not_blank (by simp) ?_
  rw [String.toList_append, String.toList_append, List.forall_mem_append, List.forall_mem_append]
  exact ⟨⟨hblank.1, not_blank_of_any (by decide)⟩, hblank.2⟩

namespace Field

variable {f : Field}

theorem toList_text (f : Field) : f.text.toList = spaced (f.words.map String.toList) :=
  String.toList_intercalate

/-- What holds of the parts of a field and of all keywords holds of the words in its line. -/
theorem forall_mem_words {P : String → Prop} (hkeyword : ∀ k : Keyword, P k.spelling)
    (hname : P f.name) (htype : ∀ t ∈ f.type, P t) (hdefault : ∀ v ∈ f.default, P v)
    (href : ∀ r ∈ f.reference, P r.relation ∧ P (r.table ++ "." ++ r.field)) :
    ∀ w ∈ f.words, P w := by
  have hmodifier (k : Keyword) (b : Bool) : ∀ w ∈ (if b then [k.spelling] else []), P w := by
    cases b with
    | true => exact List.forall_mem_singleton.2 (hkeyword k)
    | false => exact List.forall_mem_nil _
  simp only [words, List.forall_mem_append]
  refine ⟨⟨⟨⟨⟨⟨⟨List.forall_mem_singleton.2 hname, fun t ht ↦ ?_⟩,
    hmodifier .unsigned _⟩, hmodifier .null _⟩, hmodifier .unique _⟩, ?_⟩, hmodifier .pk _⟩, ?_⟩
  · exact htype t (Option.filter_eq_some_iff.1 (Option.mem_toList.1 ht)).1
  · split
    · next v hv =>
      exact List.forall_mem_cons.2 ⟨hkeyword .default, List.forall_mem_singleton.2 (hdefault v hv)⟩
    · exact List.forall_mem_nil _
  · split
    · next r hr =>
      exact List.forall_mem_cons.2 ⟨hkeyword .fk,
        List.forall_mem_cons.2 ⟨(href r hr).1, List.forall_mem_singleton.2 (href r hr).2⟩⟩
    · exact hmodifier .fk _

/-- The line of a field starts as its name does. -/
theorem head?_spaced {name : List Char} (h : IsName name) (ws : List (List Char)) :
    ∃ c ∈ (spaced (name :: ws)).head?, isNameStart c = true := by
  obtain ⟨c, cs, rfl, hc⟩ := h.head
  refine ⟨c, ?_, hc⟩
  cases ws with
  | nil => rw [spaced_singleton]; rfl
  | cons v vs => rw [spaced_cons_cons]; rfl

theorem head?_text (h : IsName f.name.toList) :
    ∃ c ∈ f.text.toList.head?, isNameStart c = true := by
  rw [toList_text]
  exact head?_spaced h (f.words.tail.map String.toList)

/-- What is written for a declarable field is a line. -/
theorem Declarable.isLine_text (h : f.Declarable) : IsLine f.text.toList := by
  have hwords : ∀ w ∈ f.words, IsLine w.toList :=
    forall_mem_words isLine_keyword h.name.isLine
      (fun t ht ↦ (h.type t ht).1.isLine (h.type t ht).2)
      (fun v hv ↦ (h.default v hv).1.isLine (h.default v hv).2)
      fun r hr ↦ ⟨isLine_relation ((h.reference r hr).elim (·.relation) (·.relation)),
        isLine_target h.name (h.reference r hr)⟩
  rw [toList_text]
  exact isLine_spaced (by simp [words]) (List.forall_mem_map.2 hwords)

/-- A field with a name, of which no other part breaks a line. -/
structure IsLinewise (f : Field) : Prop where
  /-- The name is a name. -/
  name : IsName f.name.toList
  /-- The type breaks no line. -/
  type : ∀ t ∈ f.type, IsUnbroken t.toList
  /-- The default value breaks no line. -/
  default : ∀ v ∈ f.default, IsUnbroken v.toList
  /-- What the field refers to breaks no line. -/
  reference : ∀ r ∈ f.reference, IsUnbroken r.relation.toList ∧ IsUnbroken r.table.toList ∧
    IsUnbroken r.field.toList

theorem IsLinewise.isUnbroken_text (h : f.IsLinewise) : IsUnbroken f.text.toList := by
  have hwords : ∀ w ∈ f.words, IsUnbroken w.toList := by
    refine forall_mem_words (fun k ↦ (isLine_keyword k).unbroken) h.name.isLine.unbroken h.type
      h.default fun r hr ↦ ?_
    obtain ⟨hrelation, htable, hfield⟩ := h.reference r hr
    rw [String.toList_append, String.toList_append]
    exact ⟨hrelation, (htable.append (isUnbroken_of_any (by decide))).append hfield⟩
  rw [toList_text]
  exact isUnbroken_spaced (List.forall_mem_map.2 hwords)

theorem Declarable.isLinewise (h : f.Declarable) : f.IsLinewise := by
  refine ⟨h.name, fun t ht ↦ (h.type t ht).2, fun v hv ↦ (h.default v hv).2, fun r hr ↦ ?_⟩
  have htarget := (isLine_target h.name (h.reference r hr)).unbroken
  rw [String.toList_append, String.toList_append] at htarget
  exact ⟨(isLine_relation ((h.reference r hr).elim (·.relation) (·.relation))).unbroken,
    htarget.of_append_left.of_append_left, htarget.of_append_right⟩

end Field

end ErDiagram
