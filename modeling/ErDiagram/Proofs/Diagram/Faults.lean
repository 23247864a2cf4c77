import ErDiagram.Diagram.Writing
import ErDiagram.Proofs.Presentation.Faults
import ErDiagram.Proofs.Presentation.Keeping

/-!
# Texts that cannot be read or written

Only the numbers of directive lines fail.  A text cannot be read just in case one of its lines is at
fault, and the first one says why.  A text that can be read can be written without its presentation;
with it, it cannot just in case the position line that is kept for some table has a coordinate to
which no finite floating-point value is nearest (`Diagram.fails_iff`).
-/

set_option autoImplicit false

namespace ErDiagram

open Binary64 Number Text

/-! ## Directives that cannot be written

A coordinate is written after it was rounded to a floating-point value, which fails if it is too
large for any finite one.  Views and zooms of a text have been rounded when they were read, so only
the integers in positions are left to fail. -/

theorem Number.placed_eq_error_iff {n : Number} {places : Nat} {e : Error} :
    n.placed places = .error e ↔ e = .integerTooLarge ∧ n.Overflows := by
  rw [← toBinary64?_eq_none_iff, placed, fixed?]
  cases n.toBinary64? <;> simp [eq_comm]

/-- A number that a value is rounded to can be written. -/
theorem Number.IsRounded.not_overflows {n : Number} (h : n.IsRounded) : ¬n.Overflows := by
  obtain ⟨k, rfl, m, hm⟩ := h
  obtain ⟨hshort, hlimit⟩ := m.isShort_scaled_zero
  obtain ⟨m', hm', -⟩ := Magnitude.exists_nearest?_of_isShort hshort hlimit
  rw [← toBinary64?_eq_none_iff, toBinary64?, ofInt?, hm, hm']
  exact Option.some_ne_none _

namespace Directive

/-- A directive has a number that cannot be written. -/
def Overflows : Directive → Prop
  | view p => p.x.Overflows ∨ p.y.Overflows
  | zoom factor => factor.Overflows
  | color _ _ => False
  | position _ p => p.x.Overflows ∨ p.y.Overflows

variable {d : Directive} {e : Error}

theorem line_eq_error_iff : d.line = .error e ↔ e = .integerTooLarge ∧ d.Overflows := by
  cases d with
  | view p => exact pair_eq_error_iff (fun _ ↦ placed_eq_error_iff) fun _ ↦ placed_eq_error_iff
  | zoom factor => exact bind_ok_eq_error_iff.trans placed_eq_error_iff
  | color => exact iff_of_false nofun nofun
  | position table p =>
    exact pair_eq_error_iff (fun _ ↦ placed_eq_error_iff) fun _ ↦ placed_eq_error_iff

theorem readableLine_eq_error_iff :
    d.readableLine = .error e ↔ e = .integerTooLarge ∧ d.Overflows :=
  bind_ok_eq_error_iff.trans line_eq_error_iff

/-- Of the directives of a text only positions cannot be written. -/
theorem Sound.overflows_iff (h : d.Sound) : d.Overflows ↔
    ∃ table p, d = position table p ∧ (p.x.Overflows ∨ p.y.Overflows) := by
  have hother (hwrites : ¬d.Overflows) (hslot : ∀ table p, d ≠ position table p) :
      d.Overflows ↔ ∃ table p, d = position table p ∧ (p.x.Overflows ∨ p.y.Overflows) :=
    iff_of_false hwrites fun ⟨table, p, heq, _⟩ ↦ hslot table p heq
  cases d with
  | view p =>
    refine hother ?_ fun _ _ ↦ Directive.noConfusion
    rintro (hx | hy)
    · exact h.1.not_overflows hx
    · exact h.2.not_overflows hy
  | zoom factor =>
    refine hother ?_ fun _ _ ↦ Directive.noConfusion
    rcases h with ⟨m, k, rfl, -⟩ | rfl <;> exact id
  | color => exact hother id fun _ _ ↦ Directive.noConfusion
  | position table p => exact ⟨fun h ↦ ⟨table, p, rfl, h⟩, fun ⟨_, _, rfl, h⟩ ↦ h⟩

end Directive

/-! ## Positions that are kept

Which position of a table is kept can be said in the text itself: it is that of the last line that
is for the table.  `IsLastAt` says so by the place of the line, and going along the lines from the
last one shows that it is the entry in the presentation. -/

namespace DirectiveLine

variable {l m : DirectiveLine} {k : Setting} {ls : List (List Char)} {line : List Char} {i : Nat}

/-- The `i`-th line of a text is a given directive line and the last one for its setting. -/
def IsLastAt (l : DirectiveLine) (ls : List (List Char)) (i : Nat) : Prop :=
  l.StandsAt ls i ∧ ∀ j, i < j → ∀ m : DirectiveLine, m.StandsAt ls j → m.setting ≠ l.setting

theorem StandsAt.lt (h : l.StandsAt ls i) : i < ls.length := by
  obtain ⟨line, hline, -⟩ := standsAt_iff.1 h
  exact (List.getElem?_eq_some_iff.1 hline).1

theorem standsAt_concat : l.StandsAt (ls ++ [line]) i ↔
    l.StandsAt ls i ∨ i = ls.length ∧ recognise? (trim line) = some l := by
  simp only [standsAt_iff, List.getElem?_append]
  rcases Nat.lt_trichotomy i ls.length with hlt | rfl | hgt
  · simp [hlt, Nat.ne_of_lt hlt]
  · simp
  · simp [Nat.lt_asymm hgt, Nat.ne_of_gt hgt, Nat.sub_ne_zero_of_lt hgt]

theorem ofLines_concat (ls : List (List Char)) (line : List Char) :
    ofLines (ls ++ [line]) = ofLines ls ++ (recognise? (trim line)).toList := by
  rw [ofLines_append]
  cases hm : recognise? (trim line) <;> simp [ofLines, hm]

/-- A line for another setting may follow the last line for one. -/
theorem isLastAt_concat_of_ne (hm : recognise? (trim line) = some m) (hne : m.setting ≠ l.setting) :
    l.IsLastAt (ls ++ [line]) i ↔ l.IsLastAt ls i := by
  constructor
  · rintro ⟨hl, hlast⟩
    rcases standsAt_concat.1 hl with hl | ⟨-, hl⟩
    · exact ⟨hl, fun j hj n hn ↦ hlast j hj n (standsAt_concat.2 (.inl hn))⟩
    · obtain rfl := Option.some.inj (hm.symm.trans hl)
      exact absurd rfl hne
  · rintro ⟨hl, hlast⟩
    refine ⟨standsAt_concat.2 (.inl hl), fun j hj n hn ↦ ?_⟩
    rcases standsAt_concat.1 hn with hn | ⟨-, hn⟩
    · exact hlast j hj n hn
    · obtain rfl := Option.some.inj (hm.symm.trans hn)
      exact hne

theorem heeded_position (table : String) (ls : List DirectiveLine) :
    heeded (.position table) ls = ls.filter (·.setting = .position table) := if_pos rfl

/-- The last of the lines for a setting stands below all others. -/
theorem getLast?_filter_ofLines_eq_some_iff :
    ((ofLines ls).filter (·.setting = k)).getLast? = some l ↔
      l.setting = k ∧ ∃ i, l.IsLastAt ls i := by
  -- the last line of a setting is found from the end of the text
  induction ls using List.reverseRecOn with
  | nil => simp [ofLines, IsLastAt, StandsAt]
  | append_singleton ls line ih =>
    rw [ofLines_concat, List.filter_append]
    cases hm : recognise? (trim line) with
    | none =>
      rw [Option.toList_none, List.filter_nil, List.append_nil]
      simp only [IsLastAt, standsAt_concat, hm, reduceCtorEq, and_false, or_false]
      exact ih
    | some m =>
      have hlast : m.StandsAt (ls ++ [line]) ls.length := standsAt_concat.2 (.inr ⟨rfl, hm⟩)
      by_cases hk : m.setting = k
      · rw [Option.toList_some, List.filter_cons_of_pos (by simpa using hk), List.filter_nil,
          List.getLast?_concat]
        constructor
        · rintro ⟨⟩
          refine ⟨hk, ls.length, hlast, fun j hj n hn ↦ ?_⟩
          have := hn.lt
          rw [List.length_append, List.length_singleton] at this
          omega
        · rintro ⟨hl, i, hstands, hbelow⟩
          rcases standsAt_concat.1 hstands with h | ⟨-, h⟩
          · exact absurd (hk.trans hl.symm) (hbelow _ h.lt m hlast)
          · exact hm.symm.trans h
      · rw [Option.toList_some, List.filter_cons_of_neg (by simpa using hk), List.filter_nil,
          List.append_nil, ih]
        refine and_congr_right fun hl ↦ exists_congr fun i ↦ ?_
        exact (isLastAt_concat_of_ne hm fun h ↦ hk (h.trans hl)).symm

end DirectiveLine

/-- An integer overflows just in case the numeral that it is read from does. -/
theorem Numeral.IsInteger.overflows_toInt_iff {n : Numeral} (h : n.IsInteger) :
    (Number.int n.toInt).Overflows ↔ n.Overflows := by
  rw [Number.Overflows, Numeral.Overflows, h.fraction_eq, List.append_nil, List.length_nil,
    Nat.pow_zero, Nat.mul_one, toInt, natAbs_signed]

/-! ### Values of position lines

A position is read from digits without rounding, so whether it can be written again is decided by
the digits of its line. -/

/-- A position cannot be written just in case a coordinate of its line overflows. -/
theorem DirectiveLine.overflows_iff_of_value {table : List Char} {x y : Numeral}
    {tint : Option (List Char)} {d : Directive} (hwf : (position table x y tint).WellFormed)
    (h : (position table x y tint).value = .ok d) : d.Overflows ↔ x.Overflows ∨ y.Overflows := by
  obtain ⟨-, hx, hy, -⟩ := hwf
  obtain ⟨a, ha, h⟩ := bind_eq_ok_iff.1 h
  obtain ⟨b, hb, h⟩ := bind_eq_ok_iff.1 h
  obtain rfl := Except.ok.inj h
  obtain ⟨-, rfl⟩ := Numeral.integer_eq_ok_iff.1 ha
  obtain ⟨-, rfl⟩ := Numeral.integer_eq_ok_iff.1 hb
  exact or_congr hx.overflows_toInt_iff hy.overflows_toInt_iff

namespace Presentation

open Directive DirectiveLine

variable {p : Presentation} {ls : List (List Char)} {tables : List String}

/-- The position of a table is the value of the last line for it. -/
theorem get?_position_of_read (h : read ls = .ok p) {table : String} {d : Directive} :
    p.get? (.position table) = some d ↔
      ∃ l : DirectiveLine, (l.setting = .position table ∧ ∃ i, l.IsLastAt ls i) ∧
        l.value = .ok d := by
  have hvalue (l : DirectiveLine) : l.value.toOption = some d ↔ l.value = .ok d := by
    cases l.value <;> simp [Except.toOption]
  rw [get?_of_read h, heeded_position, Option.bind_eq_some_iff]
  simp only [getLast?_filter_ofLines_eq_some_iff, hvalue]

/-- A presentation that was read cannot be written just in case the last position line of some table
has a coordinate that overflows. -/
theorem exists_overflows_iff (h : read ls = .ok p) :
    (∃ d ∈ p.directives tables, d.Overflows) ↔ ∃ i table x y tint,
      (DirectiveLine.position table x y tint).IsLastAt ls i ∧ (x.Overflows ∨ y.Overflows) := by
  constructor
  · rintro ⟨d, hd, hlarge⟩
    obtain ⟨table, q, rfl, -⟩ := (sound_of_read h d hd).overflows_iff.1 hlarge
    obtain ⟨l, ⟨hsetting, i, hl⟩, hvalue⟩ :=
      (get?_position_of_read h).1 (mem_directives_iff.1 hd)
    cases l with
    | view | zoom | color => cases hsetting
    | position t x y tint =>
      exact ⟨i, t, x, y, tint, hl, (overflows_iff_of_value hl.1.1 hvalue).1 hlarge⟩
  · rintro ⟨i, t, x, y, tint, hl, hlarge⟩
    have hheeded : DirectiveLine.position t x y tint ∈
        heeded (.position (String.ofList t)) (ofLines ls) := by
      rw [heeded_position, List.mem_filter]
      exact ⟨mem_ofLines.2 ⟨i, hl.1⟩, by simp [DirectiveLine.setting]⟩
    obtain ⟨d, hvalue⟩ := exists_read_iff.1 ⟨p, h⟩ _ _ hheeded
    refine ⟨d, mem_directives_iff.2 ?_, (overflows_iff_of_value hl.1.1 hvalue).2 hlarge⟩
    rw [setting_of_value hvalue]
    exact (get?_position_of_read h).2 ⟨_, ⟨rfl, i, hl⟩, hvalue⟩

end Presentation

/-! ## The whole text

The three parts are put together: the presentation alone decides whether a text can be read, reading
fails at the first faulty line, and what has been read fails to be written at a position that is
kept. -/

namespace Diagram

open Directive DirectiveLine

variable {text : String} {d : Diagram} {e : Error}

theorem ofText_eq_error_iff :
    ofText text = .error e ↔ Presentation.read (lines text.toList) = .error e :=
  bind_ok_eq_error_iff

theorem text_eq_error_iff :
    d.text true = .error e ↔ e = .integerTooLarge ∧ ∃ c ∈ d.directives, c.Overflows := by
  rw [← mapM_eq_error_iff fun _ _ ↦ readableLine_eq_error_iff, Diagram.text, if_pos rfl,
    presentationLines]
  exact bind_ok_eq_error_iff.trans bind_ok_eq_error_iff

/-- **Which texts cannot be read or written.**  A text cannot be read just in case some line is at
fault, and the error is that of the first one.  If it can be read, then it can be written without
its presentation; with it, it cannot just in case the last position line of some table has a
coordinate to which no finite floating-point value is nearest. -/
theorem fails_iff (text : String) :
    ((∃ e, ofText text = .error e) ↔ ∃ i e, FaultAt (lines text.toList) i e) ∧
    (∀ e, ofText text = .error e ↔
      ∃ i, FaultAt (lines text.toList) i e ∧ ∀ j < i, ∀ e', ¬FaultAt (lines text.toList) j e') ∧
    ((∃ d, ofText text = .ok d) →
      (∃ s, format text false = .ok s) ∧
      ∀ e, format text true = .error e ↔ e = .integerTooLarge ∧ ∃ i table x y tint,
        (DirectiveLine.position table x y tint).IsLastAt (lines text.toList) i ∧
          (x.Overflows ∨ y.Overflows)) := by
  refine ⟨?_, fun e ↦ ofText_eq_error_iff.trans Presentation.read_eq_error_iff, ?_⟩
  · simp only [ofText_eq_error_iff]
    exact Presentation.exists_read_eq_error_iff
  rintro ⟨d, hd⟩
  have hformat (b : Bool) : format text b = d.text b := by rw [format, hd]; rfl
  refine ⟨⟨_, hformat false⟩, fun e ↦ ?_⟩
  obtain ⟨p, hp, hdp⟩ := bind_eq_ok_iff.1 hd
  obtain rfl := Except.ok.inj hdp
  rw [hformat, text_eq_error_iff]
  exact and_congr_right fun _ ↦ Presentation.exists_overflows_iff hp

end Diagram

end ErDiagram
