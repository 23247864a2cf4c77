import ErDiagram.Proofs.Directive.Collection

/-!
# Readable lines

A directive that was put together in memory may hold names and colors that no line can say.  Its
line is written only if it is recognised as one of the same slot, and then it can be read without a
fault: it denotes some directive for the same setting (`Directive.exists_denotes_of_readableLine`).
It need not be the same directive, but no number in the line can be too large.

The difficulty is that a line may be recognised without being the line that its directive should
have: a name with a parenthesis in it could make a line look as though it placed another table.
What excludes this is that a line can be cut at a character that stands in it once
(`append_cons_inj`).  A line that is recognised as a position has one opening parenthesis only, and
so the name in front of it is the one that was written.
-/

set_option autoImplicit false

namespace ErDiagram

open Number Recognise Text

/-! ## Coordinates

Whatever number a coordinate is, its text is either a numeral or no number at all, like the name of
an infinity.  In a line that is recognised it is a numeral, and the digits are those of an integer
that a value was rounded to. -/

/-- What a value is rounded to is its own nearest value. -/
theorem Numeral.rounded_ofNat_scaled (negative : Bool) (m : Magnitude) :
    (ofNat negative (m.scaled 0)).rounded =
      .ok (if negative then -(m.scaled 0 : Int) else m.scaled 0) := by
  obtain ⟨hshort, hlimit⟩ := m.isShort_scaled_zero
  obtain ⟨m', hm', hscaled⟩ := Magnitude.exists_nearest?_of_isShort hshort hlimit
  exact rounded_ofNat negative hm' hscaled

/-- A number without decimal places is a numeral, or something that is read as none. -/
theorem Number.placed_cases {n : Number} {x : String} (h : n.placed 0 = .ok x) :
    (∃ negative m, x.toList = (Numeral.ofNat negative (Magnitude.scaled m 0)).text) ∨
      ∀ rest, signed? real? (x.toList ++ rest) = none := by
  obtain ⟨v, -, hx⟩ := of_placed h
  rw [hx]
  cases v with
  | nan => exact .inr fun _ ↦ rfl
  | infinite negative =>
    refine .inr ?_
    intro _
    cases negative <;> rfl
  | finite negative m => exact .inl ⟨negative, m, (Numeral.text_ofNat _ _).symm⟩

/-- A coordinate in a line that is recognised is the one that was written. -/
theorem Number.eq_ofNat_of_append_eq {n : Number} {x : String} (hx : n.placed 0 = .ok x)
    {X : Numeral} (hX : X.WellFormed) {rest rest' : List Char} (hrest : Ends rest)
    (hrest' : Ends rest') (h : x.toList ++ rest = X.text ++ rest') :
    (∃ negative m, X = Numeral.ofNat negative (Magnitude.scaled m 0)) ∧ rest = rest' := by
  have hread := signed_real?_text hX hrest'
  rw [← h] at hread
  rcases placed_cases hx with ⟨negative, m, hm⟩ | hnone
  · have hwf := (Numeral.isInteger_ofNat negative (m.scaled 0)).toWellFormed
    rw [hm, signed_real?_text hwf hrest] at hread
    obtain ⟨hX, hrest⟩ := Prod.mk.inj (Option.some.inj hread)
    exact ⟨⟨negative, m, hX.symm⟩, hrest⟩
  · rw [hnone] at hread
    cases hread

/-! ## The name of a table

Neither a numeral nor a word nor a color holds an opening parenthesis. -/

/-- A text is cut in one way only at a character that stands in it once. -/
theorem append_cons_inj {c : Char} {l m l' m' : List Char} (hl : c ∉ l) (hm : c ∉ m)
    (h : l' ++ c :: m' = l ++ c :: m) : l' = l ∧ m' = m := by
  rcases List.append_eq_append_iff.1 h with ⟨k, rfl, hk⟩ | ⟨k, rfl, hk⟩
  · cases k with
    | nil => exact ⟨(List.append_nil _).symm, (List.cons.inj hk).2⟩
    | cons d k =>
      obtain ⟨rfl, -⟩ := List.cons.inj hk
      exact absurd (List.mem_append_right _ List.mem_cons_self) hl
  · cases k with
    | nil => exact ⟨List.append_nil _, ((List.cons.inj hk).2).symm⟩
    | cons d k =>
      obtain ⟨-, rfl⟩ := List.cons.inj hk
      exact absurd (List.mem_append_right _ List.mem_cons_self) hm

namespace DirectiveLine

theorem parenthesis_notMem_numeral {X : Numeral} (h : X.WellFormed) : '(' ∉ X.text := by
  intro hc
  exact absurd (h.isNumeralChar_of_mem hc) (by decide)

theorem parenthesis_notMem_word {w : List Char} (h : isWord w = true) : '(' ∉ w := by
  intro hc
  exact absurd ((isWord_iff.1 h).2 _ hc) (by decide)

theorem parenthesis_notMem_placeText {X Y : Numeral} {tint : Option (List Char)}
    (hX : X.WellFormed) (hY : Y.WellFormed) (htint : ∀ c ∈ tint, IsTint c) :
    '(' ∉ placeText X Y tint := by
  have hcomma : '(' ∉ ", ".toList := by decide
  have htail : '(' ∉ tintText tint := by
    cases tint with
    | none => exact List.not_mem_nil
    | some c =>
      obtain ⟨ds, rfl, -, hds⟩ := htint c rfl
      have hhex : '(' ∉ ds := fun hc ↦ absurd (hds _ hc) (by decide)
      simpa [tintText] using hhex
  simp only [placeText, List.mem_append, not_or]
  exact ⟨⟨⟨⟨parenthesis_notMem_numeral hX, hcomma⟩, parenthesis_notMem_numeral hY⟩, htail⟩,
    by decide⟩

/-- The numbers of a position line can be evaluated if they are not too long. -/
theorem exists_value_position {table : List Char} {X Y : Numeral} {tint : Option (List Char)}
    {a b : Int} (hX : X.integer = .ok a) (hY : Y.integer = .ok b) :
    ∃ e, (position table X Y tint).value = .ok e :=
  ⟨_, bind_eq_ok_iff.2 ⟨a, hX, bind_eq_ok_iff.2 ⟨b, hY, rfl⟩⟩⟩

theorem exists_value_view {X Y : Numeral} {a b : Int} (hX : X.rounded = .ok a)
    (hY : Y.rounded = .ok b) : ∃ e, (view X Y).value = .ok e :=
  ⟨_, bind_eq_ok_iff.2 ⟨a, hX, bind_eq_ok_iff.2 ⟨b, hY, rfl⟩⟩⟩

end DirectiveLine

/-! ## Lines of any directive

A view and a position have coordinates that can be evaluated; a zoom factor and a color can always
be. -/

namespace Directive

open DirectiveLine

theorem exists_value_of_view {p : Point} {line : String} (hline : (view p).line = .ok line)
    {X Y : Numeral} (h : (DirectiveLine.view X Y).WellFormed)
    (htext : line.toList = (DirectiveLine.view X Y).text) :
    ∃ e, (DirectiveLine.view X Y).value = .ok e := by
  obtain ⟨x, hx, hline⟩ := bind_eq_ok_iff.1 hline
  obtain ⟨y, hy, hline⟩ := bind_eq_ok_iff.1 hline
  obtain rfl := Except.ok.inj hline
  simp only [text_view, String.toList_append, List.append_assoc, List.append_cancel_left_eq]
    at htext
  obtain ⟨⟨s, m, rfl⟩, hrest⟩ := eq_ofNat_of_append_eq hx h.1 (ends_comma _) (ends_comma _) htext
  obtain ⟨⟨s', m', rfl⟩, -⟩ := eq_ofNat_of_append_eq hy h.2 (ends_parenthesis _)
    (ends_parenthesis _) (List.append_cancel_left hrest)
  exact exists_value_view (Numeral.rounded_ofNat_scaled s m) (Numeral.rounded_ofNat_scaled s' m')

/-- The text of a color behind coordinates tells whether there is one, and which. -/
theorem tintText_injective {c d : Option (List Char)} (h : tintText c = tintText d) : c = d := by
  cases c <;> cases d <;> simp_all [tintText]

theorem ends_tintText (c : Option (List Char)) : Ends (tintText c ++ [')']) := by
  cases c with
  | none => exact ends_parenthesis []
  | some c =>
    rw [tintText, List.append_assoc]
    exact ends_comma _

/-- **The line of a position reads as no other**: its name and its color are those that were
written, and its coordinates were written as numerals. -/
theorem of_text_position {table : String} {p : TablePosition} {line : String}
    (hline : (position table p).line = .ok line) {T : List Char} {X Y : Numeral}
    {tint : Option (List Char)} (h : (DirectiveLine.position T X Y tint).WellFormed)
    (htext : line.toList = (DirectiveLine.position T X Y tint).text) :
    table.toList = T ∧ p.tint?.map String.toList = tint ∧
      (∃ negative m, X = Numeral.ofNat negative (Magnitude.scaled m 0)) ∧
      ∃ negative m, Y = Numeral.ofNat negative (Magnitude.scaled m 0) := by
  obtain ⟨x, hx, hlines⟩ := bind_eq_ok_iff.1 hline
  obtain ⟨y, hy, -⟩ := bind_eq_ok_iff.1 hlines
  obtain ⟨line', hline', hwritten⟩ := exists_line_position table hx hy
  obtain rfl := Except.ok.inj (hline.symm.trans hline')
  obtain ⟨hword, hX, hY, htint⟩ := h
  -- the name that was written ends where the only parenthesis opens
  have hT : '(' ∉ T ++ [' '] := by
    simpa using parenthesis_notMem_word hword
  have hplace := parenthesis_notMem_placeText hX.toWellFormed hY.toWellFormed htint
  have hcut : (table.toList ++ [' ']) ++ '(' :: (x.toList ++ (", ".toList ++ (y.toList ++
      (tintText (p.tint?.map String.toList) ++ [')'])))) =
        (T ++ [' ']) ++ '(' :: placeText X Y tint := by
    rw [hwritten] at htext
    simpa [text_position] using htext
  obtain ⟨htable, hplaces⟩ := append_cons_inj hT hplace hcut
  simp only [placeText, List.append_assoc] at hplaces
  obtain ⟨hX, hrest⟩ :=
    eq_ofNat_of_append_eq hx hX.toWellFormed (ends_comma _) (ends_comma _) hplaces
  obtain ⟨hY, hrest⟩ := eq_ofNat_of_append_eq hy hY.toWellFormed (ends_tintText _)
    (ends_tintText _) (List.append_cancel_left hrest)
  exact ⟨List.append_cancel_right htable, tintText_injective (List.append_cancel_right hrest),
    hX, hY⟩

theorem exists_value_of_position {table : String} {p : TablePosition} {line : String}
    (hline : (position table p).line = .ok line) {T : List Char} {X Y : Numeral}
    {tint : Option (List Char)} (h : (DirectiveLine.position T X Y tint).WellFormed)
    (htext : line.toList = (DirectiveLine.position T X Y tint).text) :
    table.toList = T ∧ ∃ e, (DirectiveLine.position T X Y tint).value = .ok e := by
  obtain ⟨htable, -, ⟨s, m, rfl⟩, s', m', rfl⟩ := of_text_position hline h htext
  exact ⟨htable, exists_value_position (Numeral.integer_ofNat_scaled s m)
    (Numeral.integer_ofNat_scaled s' m')⟩

/-- **A line that is written can be read**: it denotes a directive for the same setting. -/
theorem exists_denotes_of_readableLine {d : Directive} {line : String}
    (h : d.readableLine = .ok (some line)) :
    ∃ e, Denotes line.toList e ∧ e.setting = d.setting := by
  obtain ⟨line', hline, heq⟩ := of_readableLine h
  split at heq
  · next hsome =>
    obtain rfl := Option.some.inj heq
    obtain ⟨l, hl⟩ := Option.isSome_iff_exists.1 hsome
    obtain ⟨hslot, hwf, htext⟩ := Slot.of_recognise? hl
    obtain ⟨hsetting, e, he⟩ : l.setting = d.setting ∧ ∃ e, l.value = .ok e := by
      cases l with
      | view X Y =>
        cases d with
        | view p => exact ⟨rfl, exists_value_of_view hline hwf htext⟩
        | zoom | color | position => cases hslot
      | zoom factor => exact ⟨setting_eq_of_slot_eq hslot (by simp [DirectiveLine.slot]), _, rfl⟩
      | color role value =>
        exact ⟨setting_eq_of_slot_eq hslot (by simp [DirectiveLine.slot]), _, rfl⟩
      | position T X Y tint =>
        cases d with
        | position table p =>
          obtain ⟨rfl, he⟩ := exists_value_of_position hline hwf htext
          exact ⟨congrArg Setting.position String.ofList_toList, he⟩
        | zoom | color | view => cases hslot
    exact ⟨e, ⟨l, htext, hwf, he⟩, (setting_of_value he).trans hsetting⟩
  · cases heq

end Directive

end ErDiagram
