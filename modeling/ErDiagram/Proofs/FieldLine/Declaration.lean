import ErDiagram.Proofs.FieldLine.Rereading

/-!
# Lines that declare a field

Every declarable field is declared by some line (`Field.declarable_iff`).  For most fields that is
the line that is written for them.  The default value `-0` is kept from reading as a relation by a
comma behind it, and a reference that the name of the field suggests need not be spelled at all, but
for its relation.
-/

set_option autoImplicit false

namespace ErDiagram

open Lexeme Text

/-! ## Stretches of a line

Here the words need not be those that the writer would choose.  `Makes` hides them: it says that
some words, each without a blank at its ends, make up the items, whatever stands before them. -/

namespace Segment

open Item

/-- The number `-0` is read before a comma, and the comma is passed over. -/
theorem reads_minusZero_comma : Reads ['-', '0', ','] [(.number, "-0")] := by
  intro before rest hbefore _
  have hnumber : token? before (['-', '0'] ++ ',' :: rest) =
      some (.number, ['-', '0'], ',' :: rest) := by
    rw [token?.eq_def, relation?, if_pos hbefore]
    rfl
  have hstray : token? (some '0') (',' :: rest) = none := by
    rw [token?.eq_def, relation?]
    rfl
  refine (lexemes_token hnumber).trans (congrArg _ ?_)
  exact lexemes_stray (by decide) hstray

/-- Some lines in a row make up certain items, wherever they stand behind others. -/
def Makes (items : List Item) : Prop :=
  ∃ ws ls, Segment ws ls items ∧ StartsWithKeyword ls ∧ ∀ w ∈ ws, IsLine w

theorem makes_nil : Makes [] := ⟨[], [], nil, startsWithKeyword_nil, List.forall_mem_nil _⟩

theorem Makes.append {items items' : List Item} (h : Makes items) (h' : Makes items') :
    Makes (items ++ items') := by
  obtain ⟨ws, ls, hs, hk, hws⟩ := h
  obtain ⟨ws', ls', hs', hk', hws'⟩ := h'
  exact ⟨_, _, hs.append hs' hk', startsWithKeyword_append hk hk',
    List.forall_mem_append.2 ⟨hws, hws'⟩⟩

theorem exists_segment_type {type : Option String}
    (h : ∀ t ∈ type, IsType t.toList ∧ IsUnbroken t.toList) :
    ∃ ws ls, Segment ws ls (type.map Item.type).toList ∧ ∀ w ∈ ws, IsLine w := by
  obtain ⟨ls, hs⟩ := type_toList h
  refine ⟨_, ls, hs, List.forall_mem_map.2 fun t ht ↦ ?_⟩
  have ht := h t (Option.filter_eq_some_iff.1 (Option.mem_toList.1 ht)).1
  exact ht.1.isLine ht.2

theorem makes_modifier {k : Keyword} {m : Modifier} (h : k.modifier? = some m) (b : Bool) :
    Makes (if b then [.modifier m] else []) := by
  obtain ⟨ls, hs, hk⟩ := modifier_if h b
  refine ⟨_, ls, hs, hk, List.forall_mem_map.2 ?_⟩
  cases b with
  | true => exact List.forall_mem_singleton.2 (isLine_keyword k)
  | false => exact List.forall_mem_nil _

theorem makes_default {v : String} (h : IsDefault v.toList) (hu : IsUnbroken v.toList) :
    Makes [.default v] := by
  by_cases hzero : v = "-0"
  · subst hzero
    refine ⟨["default".toList, ['-', '0', ',']], _,
      ⟨.pair (reads_keyword .default) reads_minusZero_comma, fun _ hrest ↦ ?_⟩,
      startsWithKeyword_cons _ _ _, ?_⟩
    · exact ofLexemes_default rfl _ hrest
    · exact List.forall_mem_cons.2 ⟨isLine_keyword .default,
        List.forall_mem_singleton.2 (isLine_of_any (by decide) (by decide))⟩
  · have hne : v.toList ≠ ['-', '0'] := fun heq ↦ hzero (String.toList_inj.1 heq)
    obtain ⟨ls, hs, hk⟩ := Segment.default h hne
    rw [String.ofList_toList] at hs
    exact ⟨_, ls, hs, hk, List.forall_mem_cons.2 ⟨isLine_keyword .default,
      List.forall_mem_singleton.2 (h.isLine hu)⟩⟩

/-- A relation with nothing behind it leaves the reference to the name of the field. -/
theorem makes_relation {relation : String} (h : relation ∈ relationSpellings) :
    Makes [.foreignKey none, .relation relation none] := by
  have hreads := reads_relation (List.mem_map_of_mem h : IsRelation relation.toList)
  rw [String.ofList_toList] at hreads
  refine ⟨[Keyword.fk.spelling.toList, relation.toList], _,
    ⟨.pair (reads_keyword .fk) hreads, fun rest hrest ↦ ?_⟩, startsWithKeyword_cons _ _ _, ?_⟩
  · exact (ofLexemes_fk (by simp)).trans
      (congrArg _ (ofLexemes_relation (isReferable_of_startsWithKeyword hrest)))
  · exact List.forall_mem_cons.2
      ⟨isLine_keyword .fk, List.forall_mem_singleton.2 (isLine_relation h)⟩

theorem makes_reference {r : Reference} (h : r.WellFormed) :
    Makes [.foreignKey none, .relation r.relation (some r)] := by
  obtain ⟨ls, hs, hk⟩ := reference_named h
  refine ⟨_, ls, hs, hk, List.forall_mem_map.2 (List.forall_mem_cons.2 ⟨isLine_keyword .fk,
    List.forall_mem_cons.2 ⟨isLine_relation h.relation, List.forall_mem_singleton.2 ?_⟩⟩)⟩
  exact isLine_target h.table (.inl h)

end Segment

namespace Field

open Segment

variable {f : Field}

/-! ## Whole lines

The line is the name, the type, and then the other parts in the order of the writer.  The reference
is either spelled out, or left to the name of the field by a relation with nothing behind it. -/

/-- Items for the reference of a field, behind those for all else. -/
theorem Declarable.exists_makes_reference (h : f.Declarable) : ∃ items, Makes items ∧
    (items.foldl Draft.add f.scalarDraft).field f.name = f := by
  cases hr : f.reference with
  | none => exact ⟨[], makes_nil, field_scalarDraft h.fk hr⟩
  | some r =>
    have hfk : f.modifiers.fk = true := by rw [h.fk, hr]; rfl
    rcases h.reference r hr with hwf | hsuggested
    · refine ⟨_, makes_reference hwf, ?_⟩
      rw [foldl_related hfk, List.foldl_nil, field_relatedDraft hr]
    · refine ⟨_, makes_relation hsuggested.relation, ?_⟩
      rw [foldl_related hfk]
      exact field_suggested hr hsuggested rfl hfk rfl rfl

theorem Declarable.exists_line (h : f.Declarable) : ∃ cs, IsLine cs ∧
    (∃ c ∈ cs.head?, isNameStart c = true) ∧ ofText? cs = some f := by
  obtain ⟨items, href, hf⟩ := h.exists_makes_reference
  have hdefault : Makes (f.default.map Item.default).toList := by
    cases hv : f.default with
    | none => exact makes_nil
    | some v => exact makes_default (h.default v hv).1 (h.default v hv).2
  obtain ⟨ws, ls, hs, hk, hws⟩ := (((((makes_modifier (k := .unsigned) rfl
    f.modifiers.unsigned).append (makes_modifier (k := .null) rfl f.modifiers.null)).append
    (makes_modifier (k := .unique) rfl f.modifiers.unique)).append hdefault).append
    (makes_modifier (k := .pk) rfl f.modifiers.pk)).append href
  obtain ⟨types, _, htype, htypes⟩ := exists_segment_type h.type
  have hread : FieldLine.ofText? (spaced (f.name.toList :: (types ++ ws))) =
      some ⟨f.name, f.declaredItems ++ items⟩ := by
    simpa [declaredItems] using (htype.append hs hk).ofText?_spaced h.name
  refine ⟨_, isLine_spaced (List.cons_ne_nil _ _) (List.forall_mem_cons.2 ⟨h.name.isLine,
    List.forall_mem_append.2 ⟨htypes, hws⟩⟩), head?_spaced h.name _, ?_⟩
  rw [ofText?, hread, Option.map_some, FieldLine.field, List.foldl_append,
    foldl_declaredItems h.other, hf]

/-- **A field is declarable just in case some line declares it.** -/
theorem declarable_iff : f.Declarable ↔ ∃ cs, IsUnbroken cs ∧ ofText? cs = some f := by
  constructor
  · intro h
    obtain ⟨cs, hcs, -, hf⟩ := h.exists_line
    exact ⟨cs, hcs.unbroken, hf⟩
  · rintro ⟨cs, hcs, hf⟩
    exact declarable_of_ofText? hcs hf

end Field

end ErDiagram
