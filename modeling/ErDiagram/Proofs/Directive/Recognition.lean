import ErDiagram.Directive.Reading
import ErDiagram.Proofs.Directive.Numeral

/-!
# Recognising directive lines

`DirectiveLine.text` writes what a directive line says.  A slot recognises a line just in case it is
the text of a well-formed directive line of that slot (`Slot.of_recognise?`,
`DirectiveLine.slot_recognise?_text`), and lines of two slots are never the same
(`DirectiveLine.slot_eq_of_text_eq`), so that the text of a well-formed line is recognised as that
line and no other (`DirectiveLine.recognise?_text`).

The form of a line is said a second time here, and apart from the readers: as the text of what the
line says, together with the condition on its parts (`DirectiveLine.WellFormed`).  Recognising is
then an inverse of writing, and what other modules need of a directive line they take from its text
and its parts.
-/

set_option autoImplicit false

namespace ErDiagram

open Text Recognise

/-! ## The text of a directive line

The text of a line is put together from its parts.  For a position what stands behind the name of
the table is a part of its own (`placeText`), since edits look for the lines of one table by their
beginning and read on from there. -/

/-- What stands in a line before the value of a color. -/
def ColorRole.opening (role : ColorRole) : List Char := ("# " ++ role.label ++ ": ").toList

namespace DirectiveLine

/-- The color of a table behind its coordinates. -/
def tintText : Option (List Char) → List Char
  | none => []
  | some c => ", ".toList ++ c

/-- The coordinates and the color of a table, up to the end of the line. -/
def placeText (x y : Numeral) (tint : Option (List Char)) : List Char :=
  x.text ++ ", ".toList ++ y.text ++ tintText tint ++ [')']

/-- The text of a directive line. -/
def text : DirectiveLine → List Char
  | view x y => "# view: (".toList ++ x.text ++ ", ".toList ++ y.text ++ [')']
  | zoom factor => "# zoom: ".toList ++ factor.text
  | color role value => role.opening ++ value
  | position table x y tint => "# ".toList ++ table ++ " (".toList ++ placeText x y tint

theorem text_view (x y : Numeral) :
    text (view x y) = "# view: (".toList ++ x.text ++ ", ".toList ++ y.text ++ [')'] := rfl

theorem text_zoom (factor : Numeral) : text (zoom factor) = "# zoom: ".toList ++ factor.text := rfl

theorem text_color (role : ColorRole) (value : List Char) :
    text (color role value) = role.opening ++ value := rfl

theorem text_position (table : List Char) (x y : Numeral) (tint : Option (List Char)) :
    text (position table x y tint) =
      "# ".toList ++ table ++ " (".toList ++ placeText x y tint := rfl

/-- A color of a table: a number sign and hexadecimal digits. -/
def IsTint (c : List Char) : Prop :=
  ∃ ds, c = '#' :: ds ∧ ds ≠ [] ∧ ∀ d ∈ ds, isHexDigit d = true

/-- The parts of a line are as its form asks. -/
def WellFormed : DirectiveLine → Prop
  | view x y => x.WellFormed ∧ y.WellFormed
  | zoom factor => factor.WellFormed ∧ factor.negative = false
  | color _ value => ∃ w, value = '#' :: w ∧ isWord w = true
  | position table x y tint =>
    isWord table = true ∧ x.IsInteger ∧ y.IsInteger ∧ ∀ c ∈ tint, IsTint c

end DirectiveLine

/-! ## What is recognised

Soundness of each reader: what it takes off a text is the text of something well-formed.  The
statements follow the definition of the readers step by step, each of which either fails or cuts the
text in two. -/

namespace Recognise

open DirectiveLine

theorem signed_real?_eq_some {cs rest : List Char} {n : Numeral}
    (h : signed? real? cs = some (n, rest)) : n.WellFormed ∧ cs = n.text ++ rest :=
  signed?_eq_some (P := Numeral.WellFormed) (fun _ hm ↦ ⟨hm.1, hm.2, hm.3⟩)
    (fun _ _ _ ↦ real?_eq_some) h

theorem signed_natural?_eq_some {cs rest : List Char} {n : Numeral}
    (h : signed? natural? cs = some (n, rest)) : n.IsInteger ∧ cs = n.text ++ rest :=
  signed?_eq_some (P := Numeral.IsInteger) (fun _ hm ↦ ⟨⟨hm.1.1, hm.1.2, hm.1.3⟩, hm.2⟩)
    (fun _ _ _ ↦ natural?_eq_some) h

theorem signed_real?_text {n : Numeral} (h : n.WellFormed) {rest : List Char}
    (hrest : Ends rest) : signed? real? (n.text ++ rest) = some (n, rest) :=
  signed?_text (P := Numeral.WellFormed) ⟨h.1, h.2, h.3⟩ h fun _ hm hneg ↦ real?_text hm hneg hrest

theorem signed_natural?_text {n : Numeral} (h : n.IsInteger) {rest : List Char}
    (hrest : Ends rest) : signed? natural? (n.text ++ rest) = some (n, rest) :=
  signed?_text (P := Numeral.IsInteger) ⟨⟨h.1.1, h.1.2, h.1.3⟩, h.2⟩ h.toWellFormed
    fun _ hm hneg ↦ natural?_text hm hneg hrest

theorem ends_comma (rest : List Char) : Ends (", ".toList ++ rest) := by
  intro c hc
  cases hc
  decide

theorem ends_parenthesis (rest : List Char) : Ends (')' :: rest) := by
  intro c hc
  cases hc
  decide

/-! ### Readers of one slot

Each reader is a chain of steps that may fail.  Going back along the chain gives the parts of the
line and the text that they were cut from. -/

theorem view?_eq_some {cs : List Char} {l : DirectiveLine} (h : view? cs = some l) :
    ∃ x y, l = .view x y ∧ l.WellFormed ∧ cs = l.text := by
  simp only [view?, Option.bind_eq_bind, Option.bind_eq_some_iff] at h
  obtain ⟨rest, hopening, ⟨x, rest'⟩, hx, _, hcomma, ⟨y, rest''⟩, hy, h⟩ := h
  obtain ⟨hxwf, rfl⟩ := signed_real?_eq_some hx
  obtain ⟨hywf, rfl⟩ := signed_real?_eq_some hy
  split at h
  · next hend =>
    cases h
    refine ⟨x, y, rfl, ⟨hxwf, hywf⟩, ?_⟩
    obtain rfl : rest'' = _ := hend
    obtain rfl : rest' = _ := literal?_eq_some_iff.1 hcomma
    rw [literal?_eq_some_iff.1 hopening, text_view]
    simp only [List.append_assoc]
  · cases h

theorem zoom?_eq_some {cs : List Char} {l : DirectiveLine} (h : zoom? cs = some l) :
    ∃ factor, l = .zoom factor ∧ l.WellFormed ∧ cs = l.text := by
  simp only [zoom?, Option.bind_eq_bind, Option.bind_eq_some_iff] at h
  obtain ⟨rest, hopening, ⟨factor, rest'⟩, hfactor, h⟩ := h
  obtain ⟨hwf, hneg, rfl⟩ := real?_eq_some hfactor
  split at h
  · next hend =>
    cases h
    refine ⟨factor, rfl, ⟨hwf, hneg⟩, ?_⟩
    obtain rfl : rest' = [] := by simpa using hend
    rw [literal?_eq_some_iff.1 hopening, text_zoom, List.append_nil]
  · cases h

theorem opening_eq (role : ColorRole) (rest : List Char) :
    ("# " ++ role.label ++ ": #").toList ++ rest = role.opening ++ '#' :: rest := by
  cases role <;> rfl

theorem color?_eq_some {role : ColorRole} {cs : List Char} {l : DirectiveLine}
    (h : color? role cs = some l) :
    ∃ value, l = .color role value ∧ l.WellFormed ∧ cs = l.text := by
  simp only [color?, Option.bind_eq_bind, Option.bind_eq_some_iff] at h
  obtain ⟨rest, hopening, h⟩ := h
  split at h
  · next hword =>
    cases h
    refine ⟨_, rfl, ⟨rest, rfl, hword⟩, ?_⟩
    rw [literal?_eq_some_iff.1 hopening, opening_eq, text_color]
  · cases h

theorem place?_eq_some {cs : List Char} {x y : Numeral} {tint : Option (List Char)}
    (h : place? cs = some (x, y, tint)) :
    x.IsInteger ∧ y.IsInteger ∧ (∀ c ∈ tint, IsTint c) ∧ cs = placeText x y tint := by
  simp only [place?, Option.bind_eq_bind, Option.bind_eq_some_iff] at h
  obtain ⟨⟨x', rest⟩, hx, rest', hcomma, ⟨y', rest''⟩, hy, h⟩ := h
  obtain ⟨hxwf, rfl⟩ := signed_natural?_eq_some hx
  obtain ⟨hywf, rfl⟩ := signed_natural?_eq_some hy
  have hrest : rest = _ := literal?_eq_some_iff.1 hcomma
  split at h
  · split at h
    · next hend =>
      cases h
      refine ⟨hxwf, hywf, by simp, ?_⟩
      obtain rfl : rest'' = _ := hend
      simp only [hrest, placeText, tintText, List.append_assoc, List.nil_append]
    · cases h
  · next rest₃ hhash =>
    obtain ⟨⟨color, rest₄⟩, hcolor, hresult⟩ := Option.bind_eq_some_iff.1 h
    obtain ⟨hne, hhex, rfl⟩ := run?_eq_some hcolor
    split at hresult
    · next hend =>
      cases hresult
      refine ⟨hxwf, hywf, fun c hc ↦ ?_, ?_⟩
      · obtain rfl := Option.some.inj hc
        exact ⟨color, rfl, hne, hhex⟩
      · obtain rfl : rest₄ = _ := hend
        obtain rfl : rest'' = _ := literal?_eq_some_iff.1 hhash
        simp [hrest, placeText, tintText]
    · cases hresult

theorem position?_eq_some {cs : List Char} {l : DirectiveLine} (h : position? cs = some l) :
    ∃ table x y tint, l = .position table x y tint ∧ l.WellFormed ∧ cs = l.text := by
  simp only [position?, Option.bind_eq_bind, Option.bind_eq_some_iff] at h
  obtain ⟨rest, hopening, ⟨table, rest'⟩, htable, rest'', hparen, ⟨x, y, tint⟩, hplace, h⟩ := h
  obtain ⟨hne, hword, rfl⟩ := run?_eq_some htable
  obtain ⟨hx, hy, htint, rfl⟩ := place?_eq_some hplace
  cases h
  refine ⟨table, x, y, tint, rfl, ⟨?_, hx, hy, htint⟩, ?_⟩
  · exact isWord_iff.2 ⟨hne, hword⟩
  · obtain rfl : rest' = _ := literal?_eq_some_iff.1 hparen
    rw [literal?_eq_some_iff.1 hopening, text_position]
    simp only [List.append_assoc]

end Recognise

/-- What a slot recognises is the text of a well-formed line of that slot. -/
theorem Slot.of_recognise? {s : Slot} {cs : List Char} {l : DirectiveLine}
    (h : s.recognise? cs = some l) : l.slot = s ∧ l.WellFormed ∧ cs = l.text := by
  cases s with
  | view =>
    obtain ⟨x, y, rfl, h⟩ := view?_eq_some h
    exact ⟨rfl, h⟩
  | zoom =>
    obtain ⟨factor, rfl, h⟩ := zoom?_eq_some h
    exact ⟨rfl, h⟩
  | color role =>
    obtain ⟨value, rfl, h⟩ := color?_eq_some h
    exact ⟨rfl, h⟩
  | position =>
    obtain ⟨table, x, y, tint, rfl, h⟩ := position?_eq_some h
    exact ⟨rfl, h⟩

/-! ## What is written is recognised

Completeness of each reader.  Here it matters what stands behind each part: behind a coordinate a
comma or a parenthesis, behind a word a blank. -/

namespace Recognise

open DirectiveLine

theorem literal?_append (s : String) (rest : List Char) :
    literal? s (s.toList ++ rest) = some rest := literal?_eq_some_iff.2 rfl

theorem view?_text {x y : Numeral} (h : (DirectiveLine.view x y).WellFormed) :
    view? (DirectiveLine.view x y).text = some (.view x y) := by
  rw [text_view]
  simp only [view?, List.append_assoc, Option.bind_eq_bind, literal?_append, Option.bind_some,
    signed_real?_text h.1 (ends_comma _), signed_real?_text h.2 (ends_parenthesis [])]
  rfl

theorem zoom?_text {factor : Numeral} (h : (DirectiveLine.zoom factor).WellFormed) :
    zoom? (DirectiveLine.zoom factor).text = some (.zoom factor) := by
  have hfactor : real? factor.text = some (factor, []) := by
    rw [← List.append_nil factor.text]
    exact real?_text h.1 h.2 (by simp [Ends])
  rw [text_zoom]
  simp only [zoom?, Option.bind_eq_bind, literal?_append, Option.bind_some, hfactor]
  rfl

theorem color?_text {role : ColorRole} {value : List Char}
    (h : (DirectiveLine.color role value).WellFormed) :
    color? role (DirectiveLine.color role value).text = some (.color role value) := by
  obtain ⟨w, rfl, hw⟩ := h
  rw [text_color, ← opening_eq]
  simp only [color?, Option.bind_eq_bind, literal?_append, Option.bind_some, hw, if_true]
  rfl

theorem place?_placeText {x y : Numeral} {tint : Option (List Char)} (hx : x.IsInteger)
    (hy : y.IsInteger) (htint : ∀ c ∈ tint, IsTint c) :
    place? (placeText x y tint) = some (x, y, tint) := by
  rw [placeText]
  cases tint with
  | none =>
    rw [show tintText none = [] from rfl]
    simp only [place?, List.append_assoc, List.nil_append, Option.bind_eq_bind, literal?_append,
      Option.bind_some, signed_natural?_text hx (ends_comma _),
      signed_natural?_text hy (ends_parenthesis [])]
    rfl
  | some c =>
    obtain ⟨ds, rfl, hne, hds⟩ := htint c rfl
    have hhash : literal? ", #" (", ".toList ++ ('#' :: ds ++ [')'])) = some (ds ++ [')']) :=
      literal?_append ", #" _
    have hrun : run? isHexDigit (ds ++ [')']) = some (ds, [')']) :=
      run?_append hne hds (by intro c hc; cases hc; decide)
    rw [show tintText (some ('#' :: ds)) = ", ".toList ++ '#' :: ds from rfl]
    simp only [place?, List.append_assoc, Option.bind_eq_bind, literal?_append, Option.bind_some,
      signed_natural?_text hx (ends_comma _), signed_natural?_text hy (ends_comma _)]
    rw [hhash]
    simp only [hrun, Option.bind_some, if_true]
    rfl

theorem position?_text {table : List Char} {x y : Numeral} {tint : Option (List Char)}
    (h : (DirectiveLine.position table x y tint).WellFormed) :
    position? (DirectiveLine.position table x y tint).text = some (.position table x y tint) := by
  obtain ⟨hword, hx, hy, htint⟩ := h
  obtain ⟨hne, hchars⟩ := isWord_iff.1 hword
  have hrun : run? isWordChar (table ++ (" (".toList ++ placeText x y tint)) =
      some (table, " (".toList ++ placeText x y tint) :=
    run?_append hne hchars (by intro c hc; cases hc; decide)
  rw [text_position]
  simp only [position?, List.append_assoc, Option.bind_eq_bind, literal?_append, Option.bind_some,
    hrun, place?_placeText hx hy htint]
  rfl

end Recognise

/-- The slot of a well-formed line recognises its text. -/
theorem DirectiveLine.slot_recognise?_text {l : DirectiveLine} (h : l.WellFormed) :
    l.slot.recognise? l.text = some l := by
  cases l with
  | view x y => exact view?_text h
  | zoom factor => exact zoom?_text h
  | color role value => exact color?_text h
  | position table x y tint => exact position?_text h

/-! ## No line is of two slots

Lines of the slots with one value differ in how they start, and no opening is the beginning of
another, which is checked for each two of them.  The line of a position starts with a word that is
up to the writer, so it could start as any other; but behind the word there is a blank, where the
other lines have a colon or a hyphen (`Slot.separator?`). -/

namespace Slot

/-- What a line of a slot that holds one value starts with. -/
def opening : Slot → List Char
  | view => "# view: (".toList
  | zoom => "# zoom: ".toList
  | color role => role.opening
  | position => []

theorem mem_scalars {s : Slot} (h : s ≠ .position) : s ∈ scalars := by
  cases s with
  | view | zoom => decide
  | color role => cases role <;> decide
  | position => exact absurd rfl h

theorem mem_all (s : Slot) : s ∈ all := by
  by_cases h : s = .position
  · rw [h]
    decide
  · exact List.mem_append_left _ (mem_scalars h)

/-- No opening starts with another. -/
theorem opening_injective : ∀ s ∈ scalars, ∀ t ∈ scalars, s.opening <+: t.opening → s = t := by
  decide +kernel

/-- The first character behind the first word of a line. -/
def separator? (cs : List Char) : Option Char := ((cs.drop 2).dropWhile isWordChar).head?

theorem separator?_opening : ∀ s ∈ scalars, 2 ≤ s.opening.length ∧
    (separator? s.opening = some ':' ∨ separator? s.opening = some '-') := by
  decide +kernel

theorem separator?_append {cs rest : List Char} {c : Char} (hlength : 2 ≤ cs.length)
    (h : separator? cs = some c) : separator? (cs ++ rest) = some c := by
  rw [separator?] at h ⊢
  rw [List.drop_append_of_le_length hlength, List.dropWhile_append]
  cases hd : (cs.drop 2).dropWhile isWordChar with
  | nil =>
    rw [hd] at h
    cases h
  | cons d ds =>
    rw [hd] at h
    exact h

end Slot

namespace DirectiveLine

open Slot

/-! ### Telling lines apart

The text of a line determines its slot: by the character behind the first word whether it is that of
a position, and if it is not, by the opening. -/

theorem exists_text_eq {l : DirectiveLine} (h : l.slot ≠ .position) :
    ∃ rest, l.text = l.slot.opening ++ rest := by
  cases l with
  | view x y =>
    rw [text_view, List.append_assoc, List.append_assoc, List.append_assoc]
    exact ⟨_, rfl⟩
  | zoom factor => exact ⟨_, text_zoom factor⟩
  | color role value => exact ⟨_, text_color role value⟩
  | position => exact absurd rfl h

theorem separator?_text {l : DirectiveLine} (h : l.WellFormed) :
    separator? l.text = some ' ' ↔ l.slot = .position := by
  by_cases hslot : l.slot = .position
  · refine iff_of_true ?_ hslot
    cases l with
    | position table x y tint =>
      obtain ⟨hword, -⟩ := h
      have hchars := (isWord_iff.1 hword).2
      -- the word ends at the blank before the parenthesis, and that blank is the separator
      have hdrop : (table ++ (" (".toList ++ placeText x y tint)).dropWhile isWordChar =
          " (".toList ++ placeText x y tint :=
        dropWhile_run hchars (by intro c hc; cases hc; decide)
      have htext : text (position table x y tint) =
          '#' :: ' ' :: (table ++ (" (".toList ++ placeText x y tint)) := by
        rw [text_position, List.append_assoc, List.append_assoc]
        rfl
      rw [separator?, htext, List.drop_succ_cons, List.drop_succ_cons, List.drop_zero, hdrop]
      rfl
    | view | zoom | color => cases hslot
  · refine iff_of_false ?_ hslot
    obtain ⟨rest, hrest⟩ := exists_text_eq hslot
    obtain ⟨hlength, hsep | hsep⟩ := separator?_opening _ (mem_scalars hslot) <;>
      rw [hrest, separator?_append hlength hsep] <;> decide

/-- Lines of two slots are never the same. -/
theorem slot_eq_of_text_eq {l m : DirectiveLine} (hl : l.WellFormed) (hm : m.WellFormed)
    (h : l.text = m.text) : l.slot = m.slot := by
  by_cases hslot : l.slot = .position
  · rw [hslot, (separator?_text hm).1 (h ▸ (separator?_text hl).2 hslot)]
  · have hslot' : m.slot ≠ .position := fun hs ↦
      hslot ((separator?_text hl).1 (h ▸ (separator?_text hm).2 hs))
    obtain ⟨rest, hrest⟩ := exists_text_eq hslot
    obtain ⟨rest', hrest'⟩ := exists_text_eq hslot'
    have hmem := mem_scalars hslot
    have hmem' := mem_scalars hslot'
    have hprefix : l.slot.opening <+: m.text := ⟨rest, hrest.symm.trans h⟩
    have hprefix' : m.slot.opening <+: m.text := ⟨rest', hrest'.symm⟩
    rcases List.prefix_or_prefix_of_prefix hprefix hprefix' with hp | hp
    · exact opening_injective _ hmem _ hmem' hp
    · exact (opening_injective _ hmem' _ hmem hp).symm

/-- **A well-formed directive line is recognised as itself.** -/
theorem recognise?_text {l : DirectiveLine} (h : l.WellFormed) : recognise? l.text = some l := by
  have hself := slot_recognise?_text h
  cases hr : recognise? l.text with
  | none =>
    rw [List.findSome?_eq_none_iff.1 hr _ (Slot.mem_all _)] at hself
    cases hself
  | some m =>
    obtain ⟨s, _, hs⟩ := List.exists_of_findSome?_eq_some hr
    obtain ⟨rfl, hm, htext⟩ := Slot.of_recognise? hs
    rw [← slot_eq_of_text_eq h hm htext, hself] at hs
    exact hs.symm

/-- **What is recognised is the text of a well-formed directive line.** -/
theorem of_recognise? {cs : List Char} {l : DirectiveLine} (h : recognise? cs = some l) :
    l.WellFormed ∧ cs = l.text := by
  obtain ⟨s, _, hs⟩ := List.exists_of_findSome?_eq_some h
  exact (Slot.of_recognise? hs).2

/-- What a slot recognises is what is recognised, if it is of that slot. -/
theorem slot_recognise?_eq_some_iff {s : Slot} {cs : List Char} {l : DirectiveLine} :
    s.recognise? cs = some l ↔ recognise? cs = some l ∧ l.slot = s := by
  constructor
  · intro h
    obtain ⟨hslot, hwf, rfl⟩ := Slot.of_recognise? h
    exact ⟨recognise?_text hwf, hslot⟩
  · rintro ⟨h, rfl⟩
    obtain ⟨hwf, rfl⟩ := of_recognise? h
    exact slot_recognise?_text hwf

/-! ## Directive lines as lines

The text of a well-formed line has no breaks, starts with a number sign and ends with something that
is not blank.  So it stands in a text as it is, and is not taken for anything else. -/

theorem isLine_numeral {n : Numeral} (h : n.WellFormed) : IsLine n.text := by
  refine isLine_of_not_blank ?_ fun c hc ↦ ?_
  · rw [Numeral.text, Number.signed]
    split <;> simp [h.whole_ne_nil]
  · have := h.isNumeralChar_of_mem hc
    simp only [Numeral.isNumeralChar, Bool.or_eq_true, beq_iff_eq] at this
    rcases this with (hdigit | rfl) | rfl
    · exact isBlank_of_isWordChar (isWordChar_of_isDigit hdigit)
    · decide
    · decide

theorem isLine_word {w : List Char} (h : isWord w = true) : IsLine w := by
  obtain ⟨hne, hchars⟩ := isWord_iff.1 h
  exact isLine_of_not_blank hne fun c hc ↦ isBlank_of_isWordChar (hchars c hc)

/-- The openings of slots, and what stands between the parts of a line. -/
theorem isUnbroken_openings : ∀ w ∈ scalars.map opening ++ ["# ".toList, " (".toList, ", ".toList],
    IsUnbroken w := by
  have h : ∀ w ∈ scalars.map opening ++ ["# ".toList, " (".toList, ", ".toList],
      w.any isLineBreak = false := by decide +kernel
  exact fun w hw ↦ isUnbroken_of_any (h w hw)

theorem head?_opening {s : Slot} (h : s ≠ .position) : s.opening.head? = some '#' := by
  have hall : ∀ s ∈ scalars, s.opening.head? = some '#' := by decide +kernel
  exact hall s (mem_scalars h)

theorem isUnbroken_opening {s : Slot} (h : s ≠ .position) : IsUnbroken s.opening :=
  isUnbroken_openings _ (List.mem_append_left _ (List.mem_map_of_mem (mem_scalars h)))

theorem head?_opening_append {s : Slot} (h : s ≠ .position) (rest : List Char) :
    (s.opening ++ rest).head? = some '#' := by
  rw [List.head?_append, head?_opening h]
  rfl

theorem isUnbroken_tint {c : List Char} (h : IsTint c) : IsUnbroken c := by
  obtain ⟨ds, rfl, -, hds⟩ := h
  refine List.forall_mem_cons.2 ⟨by decide, ?_⟩
  intro d hd
  have hhex := hds d hd
  simp only [isHexDigit, Bool.or_eq_true, Bool.and_eq_true, decide_eq_true_eq] at hhex
  rcases hhex with h | h
  · exact isLineBreak_of_not_blank (isBlank_of_isWordChar (isWordChar_of_isDigit h))
  · have hcode : 0x61 ≤ d.toNat ∧ d.toNat ≤ 0x66 := by
      simpa [Char.le_def, UInt32.le_iff_toNat_le] using h
    simp only [isLineBreak, Bool.or_eq_false_iff, Bool.and_eq_false_iff, decide_eq_false_iff_not,
      beq_eq_false_iff_ne, ne_eq]
    omega

/-- The text of a well-formed directive line is a remark. -/
theorem isRemark_text {l : DirectiveLine} (h : l.WellFormed) : IsRemark l.text := by
  -- every opening begins with the sign of a remark, and no part of a line holds a line break
  have hparen : IsLine [')'] := isLine_of_any (by decide) (by decide)
  have hcomma : IsUnbroken ", ".toList := isUnbroken_openings _ (by simp)
  cases l with
  | view x y =>
    have hm := (((isUnbroken_opening (s := .view) (by decide)).append
      (isLine_numeral h.1).unbroken).append hcomma).append (isLine_numeral h.2).unbroken
    refine isRemark_append ?_ hm hparen
    rw [List.append_assoc, List.append_assoc]
    exact head?_opening_append (s := .view) (by decide) _
  | zoom factor =>
    refine isRemark_append ?_ (isUnbroken_opening (s := .zoom) (by decide)) (isLine_numeral h.1)
    exact head?_opening (s := .zoom) (by decide)
  | color role value =>
    obtain ⟨w, rfl, hw⟩ := h
    have hvalue : IsLine ('#' :: w) :=
      (isLine_of_any (by decide) (by decide) : IsLine ['#']).append_line (isLine_word hw)
    refine isRemark_append ?_ (isUnbroken_opening (s := .color role) (by simp)) hvalue
    exact head?_opening (s := .color role) (by simp)
  | position table x y tint =>
    obtain ⟨hword, hx, hy, htint⟩ := h
    have hopening : IsUnbroken "# ".toList := isUnbroken_openings _ (by simp)
    have hbracket : IsUnbroken " (".toList := isUnbroken_openings _ (by simp)
    have htail : IsUnbroken (tintText tint) := by
      cases tint with
      | none => exact isUnbroken_nil
      | some c => exact hcomma.append (isUnbroken_tint (htint c rfl))
    have hplace := (((isLine_numeral hx.toWellFormed).unbroken.append hcomma).append
      (isLine_numeral hy.toWellFormed).unbroken).append htail
    have hm := ((hopening.append (isLine_word hword).unbroken).append hbracket).append hplace
    rw [text_position, placeText, ← List.append_assoc]
    refine isRemark_append ?_ hm hparen
    rw [List.append_assoc, List.append_assoc]
    rfl

theorem recognise?_trim_text {l : DirectiveLine} (h : l.WellFormed) :
    recognise? (trim l.text) = some l := by
  rw [(isRemark_text h).trimmed.trim_eq, recognise?_text h]

end DirectiveLine

end ErDiagram
