import ErDiagram.Proofs.FieldLine.Coverage
import ErDiagram.Proofs.FieldLine.Segment

/-!
# What a field that is read looks like

`Field.WellFormed` says of a field that every part of it is spelled as the grammar spells that part,
whether the field comes from a text or was put together in memory.  A field that a line declares is
well-formed but for two things, and `Field.Declarable` allows just these: a default value may be
`-0`, and a reference that the name of the field suggests may be to a table that is no name.

Reading gives declarable fields (`declarable_of_ofText?`): tokens are spelled as their kinds ask,
items are made of such tokens, and each item keeps the draft of the field `Draft.Sound`.
-/

set_option autoImplicit false

namespace ErDiagram

open Lexeme Text

/-! ## The shape of a field

The conditions are about spelling, and about two matters that a text cannot express: a modifier
outside the known ones, and a foreign key that refers to nothing.  `Regular` holds what well-formed
and declarable fields have in common, so that the two differ in the default value and the reference
only. -/

/-- A reference as a line can spell it. -/
structure Reference.WellFormed (r : Reference) : Prop where
  /-- The table is a name. -/
  table : IsName r.table.toList
  /-- The field is a name. -/
  field : IsName r.field.toList
  /-- The relation is one of the known ones. -/
  relation : r.relation ∈ relationSpellings

/-- A reference that the name of a field suggests. -/
structure Reference.SuggestedBy (name : String) (r : Reference) : Prop where
  /-- The table is the name without the ending. -/
  table : r.table = withoutIdSuffix name
  /-- The field is the one that is referred to by default. -/
  field : r.field = "id"
  /-- The relation is one of the known ones. -/
  relation : r.relation ∈ relationSpellings

/-- The parts of a field other than its reference are spelled as the grammar spells them. -/
structure Field.Regular (f : Field) : Prop where
  /-- The name is a name. -/
  name : IsName f.name.toList
  /-- The type is a type, on one line. -/
  type : ∀ t ∈ f.type, IsType t.toList ∧ IsUnbroken t.toList
  /-- There are no modifiers but the known ones. -/
  other : f.modifiers.other = []
  /-- The foreign keys are the fields that refer to something. -/
  fk : f.modifiers.fk = f.reference.isSome
  /-- The default value is one, on one line. -/
  default : ∀ v ∈ f.default, IsDefault v.toList ∧ IsUnbroken v.toList

/-- A field that its own line can declare. -/
structure Field.WellFormed (f : Field) : Prop extends Field.Regular f where
  /-- The default value is not the number that reads as a relation. -/
  default_ne : f.default ≠ some "-0"
  /-- What the field refers to can be spelled. -/
  reference : ∀ r ∈ f.reference, r.WellFormed

/-- A field that some line can declare. -/
structure Field.Declarable (f : Field) : Prop extends Field.Regular f where
  /-- What the field refers to can be spelled, or is suggested by its name. -/
  reference : ∀ r ∈ f.reference, r.WellFormed ∨ r.SuggestedBy f.name

theorem Field.WellFormed.declarable {f : Field} (h : f.WellFormed) : f.Declarable :=
  { h with reference := fun r hr ↦ .inl (h.reference r hr) }

/-! ## Tokens

A line has no line breaks, so none of its tokens has, and a quoted text or an argument list cannot
run over more than one line. -/

/-- The text of a token is spelled as its kind asks, on one line. -/
def Token.Sound (t : Token) : Prop := Spells t.kind t.text.toList ∧ IsUnbroken t.text.toList

/-- The tokens of a line are sound. -/
theorem Token.sound_of_mem_scan {cs : List Char} (hcs : IsUnbroken cs) {t : Token}
    (h : t ∈ scan cs) : t.Sound := by
  obtain ⟨rest, hdrop, hmatches⟩ := matches_of_mem_scan h
  refine ⟨hmatches.spells, fun c hc ↦ hcs c (List.mem_of_mem_drop (i := t.offset) ?_)⟩
  rw [hdrop]
  exact List.mem_append_left rest hc

/-! ## Items

`Item.Sound` asks of each text in an item what its place asks for.  An item copies texts of tokens
or joins one with an argument list, so soundness of the tokens is enough. -/

theorem isName_id : IsName "id".toList := ⟨by decide, .char (by decide) .nil⟩

/-- A name refers to the field `id` of its table. -/
theorem Reference.ofTarget_name {w : String} (h : IsName w.toList) (relation : String) :
    ofTarget w relation = ⟨w, "id", relation⟩ := by
  have hpoint : ∀ c ∈ w.toList, decide (c ≠ '.') = true := fun c hc ↦
    decide_eq_true (h.ne_point c hc)
  have hend : ∀ c ∈ ([] : List Char).head?, decide (c ≠ '.') = false := by simp
  have htable := takeWhile_run hpoint hend
  have hfield := dropWhile_run hpoint hend
  rw [List.append_nil] at htable hfield
  simp only [ofTarget, htable, hfield, String.ofList_toList]
  rfl

/-- A target refers to the field behind the point. -/
theorem Reference.ofTarget_target {table field : List Char} (ht : IsName table)
    (hf : field ≠ []) (relation : String) :
    ofTarget (String.ofList (table ++ '.' :: field)) relation =
      ⟨String.ofList table, String.ofList field, relation⟩ := by
  have hpoint : ∀ c ∈ table, decide (c ≠ '.') = true := fun c hc ↦
    decide_eq_true (ht.ne_point c hc)
  have hstop : ∀ c ∈ ('.' :: field).head?, decide (c ≠ '.') = false := by simp
  simp only [ofTarget, String.toList_ofList, takeWhile_run hpoint hstop, dropWhile_run hpoint hstop]
  simp [hf]

namespace Item

/-- The texts in an item are spelled as their place asks, on one line. -/
def Sound : Item → Prop
  | type t => IsType t.toList ∧ IsUnbroken t.toList
  | default v => IsDefault v.toList ∧ IsUnbroken v.toList
  | foreignKey target => ∀ r ∈ target, r.WellFormed
  | relation spelling target => spelling ∈ relationSpellings ∧ ∀ r ∈ target, r.WellFormed
  | modifier _ | notNull | ignored _ => True

variable {ts : List Token}

/-! ### What an item is made of

The text of an item is that of a token, or of two tokens with nothing between them.  An operand is
of a kind that was asked for, and all tokens behind the item are tokens of the line. -/

theorem of_operand? {ok : TokenKind → Bool} {o : Token × List Token}
    (h : operand? ok ts = some o) : ts = o.1 :: o.2 ∧ ok o.1.kind = true := by
  cases ts with
  | nil => cases h
  | cons t ts =>
    rw [operand?] at h
    split at h
    · next hok =>
      obtain rfl := Option.some.inj h
      exact ⟨rfl, hok⟩
    · cases h

/-- A text takes the argument list behind it or nothing. -/
theorem withArguments_cases (w : String) (ts : List Token) :
    withArguments w ts = (w, ts) ∨
      ∃ a us, ts = a :: us ∧ a.kind = .arguments ∧ withArguments w ts = (w ++ a.text, us) := by
  rw [withArguments]
  split
  · next a us h =>
    obtain ⟨hts, ha⟩ := of_operand? h
    exact .inr ⟨a, us, hts, of_decide_eq_true ha, rfl⟩
  · exact .inl rfl

end Item

/-- A token of the right kind is what a reference can be to. -/
theorem Reference.wellFormed_ofTarget {t : Token} (h : t.Sound) (hkind : t.kind.isReferable = true)
    {relation : String} (hr : relation ∈ relationSpellings) :
    (ofTarget t.text relation).WellFormed := by
  obtain ⟨hspells, -⟩ := h
  cases hk : t.kind with
  | word =>
    rw [hk] at hspells
    rw [ofTarget_name hspells.1]
    exact ⟨hspells.1, isName_id, hr⟩
  | target =>
    rw [hk] at hspells
    obtain ⟨table, field, ht, hf, htext⟩ := hspells
    have hne : field ≠ [] := by rintro rfl; exact hf.elim
    rw [← String.ofList_toList (s := t.text), htext, ofTarget_target ht hne]
    exact ⟨by rwa [String.toList_ofList], by rwa [String.toList_ofList], hr⟩
  | number | quotation | arguments | point | relation | keyword _ => rw [hk] at hkind; cases hkind

theorem Token.Sound.relation {t : Token} (h : t.Sound) (hkind : t.kind = .relation) :
    t.text ∈ relationSpellings := by
  obtain ⟨hspells, -⟩ := h
  rw [hkind] at hspells
  obtain ⟨s, hs, heq⟩ := List.mem_map.1 hspells
  rwa [← String.toList_inj.1 heq]

namespace Item

variable {t : Token} {ts : List Token}

/-! ### Items are sound

One lemma for each item that takes an operand, and then one over all kinds of tokens.  The items of
a line are sound by induction along `Item.ofTokens`. -/

theorem sound_type (h : t.Sound) (hkind : t.kind = .word) (hts : ∀ u ∈ ts, u.Sound) :
    (type (withArguments t.text ts).1).Sound ∧ ∀ u ∈ (withArguments t.text ts).2, u.Sound := by
  obtain ⟨hspells, hunbroken⟩ := h
  rw [hkind] at hspells
  rcases withArguments_cases t.text ts with heq | ⟨a, us, rfl, ha, heq⟩
  · rw [heq]
    exact ⟨⟨.word hspells, hunbroken⟩, hts⟩
  · obtain ⟨⟨hargs, hbreaks⟩, hus⟩ := List.forall_mem_cons.1 hts
    rw [ha] at hargs
    rw [heq, Sound, String.toList_append]
    exact ⟨⟨.call hspells hargs, hunbroken.append hbreaks⟩, hus⟩

theorem sound_default (h : t.Sound) (hkind : t.kind.isValue = true) (hts : ∀ u ∈ ts, u.Sound) :
    (default (withArguments t.text ts).1).Sound ∧ ∀ u ∈ (withArguments t.text ts).2, u.Sound := by
  obtain ⟨hspells, hunbroken⟩ := h
  have hatom := isAtom_iff.2 ⟨t.kind, hkind, hspells⟩
  rcases withArguments_cases t.text ts with heq | ⟨a, us, rfl, ha, heq⟩
  · rw [heq]
    exact ⟨⟨.atom hatom, hunbroken⟩, hts⟩
  · obtain ⟨⟨hargs, hbreaks⟩, hus⟩ := List.forall_mem_cons.1 hts
    rw [ha] at hargs
    rw [heq, Sound, String.toList_append]
    exact ⟨⟨.call hatom hargs, hunbroken.append hbreaks⟩, hus⟩

/-- The item that starts with a token is sound, and so are the tokens behind it. -/
theorem sound_first (h : t.Sound) (hts : ∀ u ∈ ts, u.Sound) :
    (first t ts).1.Sound ∧ ∀ u ∈ (first t ts).2, u.Sound := by
  rw [first.eq_def]
  cases hkind : t.kind with
  | word => exact sound_type h hkind hts
  | target =>
    have hspells := hkind ▸ h.1
    exact ⟨⟨.target hspells, h.2⟩, hts⟩
  | relation =>
    have hrelation := h.relation hkind
    dsimp only
    split
    · next o us ho =>
      obtain ⟨rfl, hok⟩ := of_operand? ho
      -- the operand was among the tokens that follow, so it is sound as well
      obtain ⟨hos, hus⟩ := List.forall_mem_cons.1 hts
      refine ⟨⟨hrelation, fun r hr ↦ ?_⟩, hus⟩
      obtain rfl := Option.some.inj hr
      exact Reference.wellFormed_ofTarget hos hok hrelation
    · exact ⟨⟨hrelation, by simp⟩, hts⟩
  | keyword k =>
    cases k with
    | fk =>
      dsimp only
      split
      · next o us ho =>
        obtain ⟨rfl, hok⟩ := of_operand? ho
        obtain ⟨hos, hus⟩ := List.forall_mem_cons.1 hts
        have htarget : o.kind.isReferable = true := by rw [of_decide_eq_true hok]; rfl
        refine ⟨fun r hr ↦ ?_, hus⟩
        obtain rfl := Option.some.inj hr
        exact Reference.wellFormed_ofTarget hos htarget (by decide)
      · exact ⟨by simp [Sound], hts⟩
    | default =>
      dsimp only
      split
      · next o us ho =>
        obtain ⟨rfl, hok⟩ := of_operand? ho
        obtain ⟨hos, hus⟩ := List.forall_mem_cons.1 hts
        exact sound_default hos hok hus
      · exact ⟨trivial, hts⟩
    | not =>
      dsimp only
      split
      · next o us ho =>
        obtain ⟨rfl, _⟩ := of_operand? ho
        exact ⟨trivial, (List.forall_mem_cons.1 hts).2⟩
      · exact ⟨trivial, hts⟩
    | pk | unique | unsigned | null => exact ⟨trivial, hts⟩
  | number | quotation | arguments | point => exact ⟨trivial, hts⟩

/-- The items that sound tokens make up are sound. -/
theorem sound_of_mem_ofTokens (hts : ∀ t ∈ ts, t.Sound) : ∀ i ∈ ofTokens ts, i.Sound := by
  fun_induction ofTokens ts with
  | case1 => exact List.forall_mem_nil _
  | case2 t ts ih =>
    obtain ⟨ht, hts⟩ := List.forall_mem_cons.1 hts
    obtain ⟨hfirst, hrest⟩ := sound_first ht hts
    exact List.forall_mem_cons.2 ⟨hfirst, ih hrest⟩

end Item

/-! ## The draft

The invariant of the fold over the items.  Every item keeps it, whatever the order of the items, and
a field with a sound draft is declarable: the only reference that is not spelled in the line is the
one that `Draft.field` makes up from the name. -/

namespace Draft

/-- The parts of a draft are spelled as the grammar spells them. -/
structure Sound (d : Draft) : Prop where
  /-- The type is a type, on one line. -/
  type : ∀ t ∈ d.type, IsType t.toList ∧ IsUnbroken t.toList
  /-- There are no modifiers but the known ones. -/
  other : d.modifiers.other = []
  /-- Only a foreign key refers to something. -/
  fk : d.reference.isSome = true → d.modifiers.fk = true
  /-- What the field refers to can be spelled. -/
  reference : ∀ r ∈ d.reference, r.WellFormed
  /-- The default value is one, on one line. -/
  default : ∀ v ∈ d.default, IsDefault v.toList ∧ IsUnbroken v.toList
  /-- The relation is one of the known ones. -/
  relation : d.relation ∈ relationSpellings

theorem sound_empty : Sound {} :=
  ⟨by simp, rfl, by simp, by simp, by simp, by decide⟩

theorem other_insert (ms : Modifiers) (m : Modifier) : (ms.insert m).other = ms.other := by
  cases m <;> rfl

variable {d : Draft}

/-- A sound item leaves a draft sound. -/
theorem Sound.add (h : d.Sound) {i : Item} (hi : i.Sound) : (d.add i).Sound := by
  cases i with
  | modifier m =>
    refine { h with other := (other_insert _ _).trans h.other, fk := fun hs ↦ ?_ }
    have := (Modifiers.contains_insert d.modifiers m .fk).trans
      (by rw [Modifiers.contains, h.fk hs, Bool.or_true])
    exact this
  | notNull => exact { h with other := h.other, fk := h.fk }
  | type text =>
    refine { h with type := fun t ht ↦ ?_ }
    rcases Option.or_eq_some_iff.1 ht with ht | ⟨_, ht⟩
    · exact h.type t ht
    · obtain rfl := Option.some.inj ht
      exact hi
  | default value =>
    refine { h with default := fun v hv ↦ ?_ }
    obtain rfl := Option.some.inj hv
    exact hi
  | foreignKey target =>
    refine { h with
      other := (other_insert _ _).trans h.other, fk := fun _ ↦ rfl, reference := fun r hr ↦ ?_ }
    rcases Option.or_eq_some_iff.1 hr with hr | ⟨_, hr⟩
    · exact hi r hr
    · exact h.reference r hr
  | relation spelling target =>
    exact { h with
      other := (other_insert _ _).trans h.other
      fk := fun _ ↦ rfl
      reference := hi.2
      relation := hi.1 }
  | ignored text => exact h

theorem Sound.foldl_add (h : d.Sound) {items : List Item} (hi : ∀ i ∈ items, i.Sound) :
    (items.foldl Draft.add d).Sound := by
  induction items generalizing d with
  | nil => exact h
  | cons i items ih =>
    obtain ⟨hi, hitems⟩ := List.forall_mem_cons.1 hi
    exact ih (h.add hi) hitems

/-- A sound draft is of a field that a line can declare. -/
theorem Sound.declarable (h : d.Sound) {name : String} (hname : IsName name.toList) :
    (d.field name).Declarable := by
  have hshape : (d.field name).modifiers.fk = (d.field name).reference.isSome ∧
      ∀ r ∈ (d.field name).reference, r.WellFormed ∨ r.SuggestedBy name := by
    simp only [field]
    split
    · next hs =>
      rw [Bool.and_eq_true] at hs
      refine ⟨hs.1, fun r hr ↦ .inr ?_⟩
      obtain rfl := Option.some.inj hr
      exact ⟨rfl, rfl, h.relation⟩
    · next hs =>
      refine ⟨?_, fun r hr ↦ .inl (h.reference r hr)⟩
      cases hr : d.reference with
      | none => simpa [hr] using hs
      | some r => exact h.fk (by rw [hr]; rfl)
  exact
    { name := hname
      type := h.type
      other := h.other
      fk := hshape.1
      default := h.default
      reference := hshape.2 }

end Draft

/-- **Every field that a line of text declares is declarable.** -/
theorem Field.declarable_of_ofText? {cs : List Char} (hcs : IsUnbroken cs) {f : Field}
    (h : ofText? cs = some f) : f.Declarable := by
  obtain ⟨l, hl, rfl⟩ := Option.map_eq_some_iff.1 h
  have hsound : ∀ t ∈ Token.scan cs, t.Sound := fun t ↦ Token.sound_of_mem_scan hcs
  rw [FieldLine.ofText?] at hl
  cases hscan : Token.scan cs with
  | nil => rw [hscan] at hl; cases hl
  | cons t ts =>
    rw [hscan] at hl hsound
    obtain ⟨ht, hts⟩ := List.forall_mem_cons.1 hsound
    rw [FieldLine.ofTokens?] at hl
    split at hl
    · next hname =>
      obtain rfl := Option.some.inj hl
      have hspells := ht.1
      refine (Draft.sound_empty.foldl_add (Item.sound_of_mem_ofTokens hts)).declarable ?_
      cases hkind : t.kind with
      | word | keyword _ => rw [hkind] at hspells; exact hspells.1
      | target | number | quotation | arguments | point | relation =>
        rw [hkind] at hname
        cases hname
    · cases hl

end ErDiagram
