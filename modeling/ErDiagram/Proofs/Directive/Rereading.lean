import ErDiagram.Proofs.Directive.Recognition
import ErDiagram.Proofs.Number.Digits
import ErDiagram.Proofs.Number.Nearest
import ErDiagram.Proofs.Result

/-!
# Reading the line of a directive back

A directive that was read from a text is `Directive.Sound`, and its line is read back: the view and
the colors as they were (`rereads_view`, `rereads_color`), the zoom factor as it was unless it is
an infinity, for which there is no line (`rereads_zoom`, `readableLine_zoom_infinite`), and the
position of a table up to rounding, so as it was just in case its coordinates are
`Number.Representable` (`rereads_position`).

Rounding is what makes this a matter of numbers.  The coordinates of a view are rounded to integers
and written without decimal places; the zoom factor is rounded to thousandths and written with
three; the coordinates of a table are integers of any size, which are written as the floating-point
value nearest to them.  In the first two cases a number has been rounded before it is written for
the first time, and rounding it again changes nothing.  In the third case it may change, and then it
has changed for good.

All this is said with the notion of a line that `Denotes` a directive: it is the text of a
well-formed line with that value.  A directive is read back from its line if the line denotes it.
-/

set_option autoImplicit false

namespace ErDiagram

open Number Text

/-! ## Directives of a text

`Directive.Sound` is the condition that every directive of a text satisfies, whatever the text: its
numbers have been rounded, and its names and colors are spelled as a line has to spell them. -/

/-- An integer that some floating-point value is rounded to. -/
def Number.IsRounded (n : Number) : Prop :=
  ∃ k : Int, n = .int k ∧ ∃ m : Magnitude, k.natAbs = m.scaled 0

/-- A floating-point value that some thousandths are nearest to. -/
def Number.IsThousandths (n : Number) : Prop :=
  ∃ m k, n = .double (.finite false m) ∧ Magnitude.nearest? k 1000 = some m

/-- A number loses nothing when it is written: a floating-point value, or an integer for which
fifty-three bits suffice. -/
def Number.Representable : Number → Prop
  | .int k => Magnitude.IsShort k.natAbs
  | .double _ => True

/-- A position as a text can give it. -/
structure TablePosition.Sound (p : TablePosition) : Prop where
  /-- The horizontal coordinate is an integer. -/
  x : ∃ k, p.x = .int k
  /-- The vertical coordinate is an integer. -/
  y : ∃ k, p.y = .int k
  /-- The color is a number sign and hexadecimal digits. -/
  color : ∀ c ∈ p.color, DirectiveLine.IsTint c.toList

/-- Both coordinates of a table lose nothing when they are written. -/
def TablePosition.Representable (p : TablePosition) : Prop :=
  p.x.Representable ∧ p.y.Representable

/-- A directive as a text can give it. -/
def Directive.Sound : Directive → Prop
  | view p => p.x.IsRounded ∧ p.y.IsRounded
  | zoom factor => factor.IsThousandths ∨ factor = .double (.infinite false)
  | color _ value => ∃ w, value.toList = '#' :: w ∧ isWord w = true
  | position table p => isWord table.toList = true ∧ p.Sound

theorem natAbs_signed (negative : Bool) (n : Nat) :
    (if negative then -(n : Int) else n).natAbs = n := by
  cases negative <;> simp

/-- The integer with the sign of another and a given absolute value. -/
theorem signed_eq_self_iff {k : Int} {n : Nat} :
    (if decide (k < 0) then -(n : Int) else n) = k ↔ n = k.natAbs := by
  by_cases hk : k < 0
  · rw [decide_eq_true hk, if_pos rfl]
    omega
  · rw [decide_eq_false hk, if_neg Bool.false_ne_true]
    omega

namespace Binary64

theorem natAbs_of_roundInt? {v : Binary64} {k : Int} (h : v.roundInt? = some k) :
    ∃ m : Magnitude, k.natAbs = m.scaled 0 := by
  cases v with
  | nan | infinite => cases h
  | finite negative m =>
    rw [roundInt?, Option.some_inj] at h
    exact ⟨m, by rw [← h, natAbs_signed]⟩

/-- The value nearest to some thousandths. -/
theorem isThousandths_or_infinite {k : Nat} {o : Option Magnitude}
    (h : Magnitude.nearest? k 1000 = o) :
    (Number.double (o.elim (infinite false) (finite false))).IsThousandths ∨
      o.elim (infinite false) (finite false) = infinite false := by
  cases o with
  | none => exact .inr rfl
  | some m => exact .inl ⟨m, k, rfl, h⟩

theorem roundThousandths_finite (negative : Bool) (m : Magnitude) :
    (finite negative m).roundThousandths = ofQuotient negative (m.scaled 3) 1000 := rfl

theorem roundThousandths_isThousandths (o : Option Magnitude) :
    (Number.double (o.elim (infinite false) (finite false)).roundThousandths).IsThousandths ∨
      (o.elim (infinite false) (finite false)).roundThousandths = infinite false := by
  cases o with
  | none => exact .inr rfl
  | some m =>
    rw [Option.elim_some, roundThousandths_finite, ofQuotient]
    exact isThousandths_or_infinite rfl

end Binary64

theorem Numeral.isRounded_of_rounded {n : Numeral} {k : Int} (h : n.rounded = .ok k) :
    (Number.int k).IsRounded :=
  ⟨k, rfl, Binary64.natAbs_of_roundInt? (elim_eq_ok_iff.1 h)⟩

/-- **What a directive line stands for is sound.** -/
theorem DirectiveLine.sound_of_value {l : DirectiveLine} (h : l.WellFormed) {d : Directive}
    (hd : l.value = .ok d) : d.Sound := by
  cases l with
  | view x y =>
    obtain ⟨a, ha, hd⟩ := bind_eq_ok_iff.1 hd
    obtain ⟨b, hb, hd⟩ := bind_eq_ok_iff.1 hd
    obtain rfl := Except.ok.inj hd
    exact ⟨Numeral.isRounded_of_rounded ha, Numeral.isRounded_of_rounded hb⟩
  | zoom factor =>
    obtain ⟨-, hneg⟩ := h
    have hd := Except.ok.inj hd
    have := Binary64.roundThousandths_isThousandths
      (Magnitude.nearest? (ofDigits (factor.whole ++ factor.fraction))
        (10 ^ factor.fraction.length))
    rw [← Binary64.ofQuotient] at this
    rw [← hd, Directive.Sound, Numeral.toBinary64, hneg]
    exact this.imp_right (congrArg Number.double)
  | color role value =>
    obtain ⟨w, rfl, hw⟩ := h
    obtain rfl := Except.ok.inj hd
    exact ⟨w, String.toList_ofList, hw⟩
  | position table x y tint =>
    obtain ⟨hword, -, -, htint⟩ := h
    obtain ⟨a, ha, hd⟩ := bind_eq_ok_iff.1 hd
    obtain ⟨b, hb, hd⟩ := bind_eq_ok_iff.1 hd
    obtain rfl := Except.ok.inj hd
    refine ⟨by rwa [String.toList_ofList], ⟨⟨a, rfl⟩, ⟨b, rfl⟩, ?_⟩⟩
    intro c hc
    obtain ⟨t, ht, rfl⟩ := Option.map_eq_some_iff.1 hc
    rw [String.toList_ofList]
    exact htint t ht

/-! ## Numbers that are written

Numerals are made from the digits of a natural number, with a sign, or with a fraction of three
digits.  For each kind it is said what its text is, and what it stands for when it is read. -/

/-- The numeral of an integer. -/
def Numeral.ofNat (negative : Bool) (n : Nat) : Numeral := { negative, whole := digits n }

/-- The numeral of thousandths. -/
def Numeral.ofThousandths (n : Nat) : Numeral :=
  { whole := digits (n / 10 ^ 3), fraction := padded 3 (n % 10 ^ 3) }

namespace Numeral

theorem isInteger_ofNat (negative : Bool) (n : Nat) : (ofNat negative n).IsInteger :=
  ⟨⟨digits_ne_nil n, fun _ ↦ isDigit_of_mem_digits, List.forall_mem_nil _⟩, rfl⟩

theorem text_ofNat (negative : Bool) (n : Nat) :
    (ofNat negative n).text = signed negative (digits n) := (isInteger_ofNat negative n).text_eq

theorem wellFormed_ofThousandths (n : Nat) : (ofThousandths n).WellFormed :=
  ⟨digits_ne_nil _, fun _ ↦ isDigit_of_mem_digits, fun _ ↦ isDigit_of_mem_padded⟩

theorem length_fraction_ofThousandths (n : Nat) : (ofThousandths n).fraction.length = 3 :=
  length_padded (Nat.mod_lt n (by decide)) (by decide)

theorem text_ofThousandths (n : Nat) : (ofThousandths n).text =
    digits (n / 10 ^ 3) ++ '.' :: padded 3 (n % 10 ^ 3) := by
  have hne : (ofThousandths n).fraction.isEmpty = false := by
    cases h : (ofThousandths n).fraction with
    | nil =>
      have := length_fraction_ofThousandths n
      rw [h] at this
      cases this
    | cons => rfl
  rw [text, hne]
  rfl

theorem ofDigits_ofThousandths (n : Nat) :
    ofDigits ((ofThousandths n).whole ++ (ofThousandths n).fraction) = n := by
  rw [ofThousandths, ofDigits_append_padded _ (Nat.mod_lt n (by decide)) (by decide)]
  exact Nat.div_add_mod' n (10 ^ 3)

theorem toBinary64_ofNat {negative : Bool} {n : Nat} {m : Magnitude}
    (h : Magnitude.nearest? n 1 = some m) : (ofNat negative n).toBinary64 = .finite negative m := by
  have hdigits : ofDigits ((ofNat negative n).whole ++ (ofNat negative n).fraction) = n := by
    rw [show (ofNat negative n).fraction = [] from rfl, List.append_nil]
    exact ofDigits_digits n
  have hpower : 10 ^ (ofNat negative n).fraction.length = 1 := rfl
  rw [toBinary64, hdigits, hpower, Binary64.ofQuotient, h, Option.elim_some]
  rfl

theorem toBinary64_ofThousandths {n : Nat} {m : Magnitude}
    (h : Magnitude.nearest? n 1000 = some m) : (ofThousandths n).toBinary64 = .finite false m := by
  rw [toBinary64, ofDigits_ofThousandths, length_fraction_ofThousandths,
    show 10 ^ 3 = 1000 from rfl, Binary64.ofQuotient, h, Option.elim_some]
  rfl

/-- The numeral of an integer that is its own nearest value is rounded to that integer. -/
theorem rounded_ofNat {n : Nat} (negative : Bool) {m : Magnitude}
    (h : Magnitude.nearest? n 1 = some m) (hm : m.scaled 0 = n) :
    (ofNat negative n).rounded = .ok (if negative then -(n : Int) else n) := by
  rw [rounded, toBinary64_ofNat h, Binary64.roundInt?, hm]
  rfl

theorem integer_ofNat {n k : Nat} (negative : Bool) (hk : k ≤ digitLimit) (hpos : 0 < k)
    (hn : n < 10 ^ k) :
    (ofNat negative n).integer = .ok (if negative then -(n : Int) else n) := by
  have hlength : (ofNat negative n).whole.length ≤ digitLimit :=
    Nat.le_trans (length_digits_le hn hpos) hk
  have hint : (ofNat negative n).toInt = if negative then -(n : Int) else n := by
    rw [toInt, show ofDigits (ofNat negative n).whole = n from ofDigits_digits n]
    rfl
  rw [integer, if_neg (Nat.not_lt.2 hlength), hint]

/-- The numeral of what a value is rounded to has not too many digits. -/
theorem integer_ofNat_scaled (negative : Bool) (m : Magnitude) :
    (ofNat negative (m.scaled 0)).integer =
      .ok (if negative then -(m.scaled 0 : Int) else m.scaled 0) := by
  obtain ⟨e, he, hlt⟩ := m.exists_scaled_zero_lt
  have hdigits : 0 < e ∧ e ≤ digitLimit := by
    rw [he]
    decide
  exact integer_ofNat negative hdigits.2 hdigits.1 hlt

end Numeral

namespace Number

/-! ### Numbers as numerals

What `Number.placed` writes is the text of a numeral, and the value of that numeral can be compared
with the number.  An integer of any size comes back as the value nearest to it. -/

theorem of_placed {n : Number} {places : Nat} {x : String} (h : n.placed places = .ok x) :
    ∃ v, n.toBinary64? = some v ∧ x.toList = v.fixed places := by
  rw [placed, fixed?] at h
  cases hv : n.toBinary64? with
  | none =>
    rw [hv] at h
    cases h
  | some v =>
    rw [hv] at h
    obtain rfl := Except.ok.inj h
    exact ⟨v, rfl, String.toList_ofList⟩

/-- An integer is written as the value nearest to it. -/
theorem of_placed_int {k : Int} {x : String} (h : (int k).placed 0 = .ok x) :
    ∃ m, Magnitude.nearest? k.natAbs 1 = some m ∧
      x.toList = (Numeral.ofNat (k < 0) (m.scaled 0)).text := by
  obtain ⟨v, hv, hx⟩ := of_placed h
  rw [toBinary64?, Binary64.ofInt?] at hv
  obtain ⟨m, hm, rfl⟩ := Option.map_eq_some_iff.1 hv
  refine ⟨m, hm, ?_⟩
  rw [hx, Binary64.fixed, Magnitude.fixed, Numeral.text_ofNat]
  rfl

/-- A number is written as a numeral without a fraction. -/
def Writes (n : Number) (m : Numeral) : Prop :=
  m.IsInteger ∧ ∃ x, n.placed 0 = .ok x ∧ x.toList = m.text

/-- An integer that some value is rounded to is written as a numeral that is rounded to it. -/
theorem exists_numeral_of_isRounded {k : Int} {x : String} (h : (int k).IsRounded)
    (hx : (int k).placed 0 = .ok x) : ∃ n : Numeral, (int k).Writes n ∧ n.rounded = .ok k := by
  obtain ⟨k', hk, m', hm'⟩ := h
  obtain rfl := Number.int.inj hk
  obtain ⟨m, hm, htext⟩ := of_placed_int hx
  have hscaled : m.scaled 0 = k.natAbs := by
    rw [Magnitude.scaled_zero_eq_iff hm, hm']
    exact (Magnitude.isShort_scaled_zero m').1
  refine ⟨_, ⟨Numeral.isInteger_ofNat _ _, x, hx, htext⟩, ?_⟩
  rw [hscaled, Numeral.rounded_ofNat _ hm hscaled, signed_eq_self_iff.2 rfl]

/-- An integer is written as a numeral that stands for it just in case it is representable. -/
theorem exists_numeral_int {k : Int} {x : String} (hx : (int k).placed 0 = .ok x) :
    ∃ (n : Numeral) (k' : Int), (int k).Writes n ∧ n.integer = .ok k' ∧
      (k' = k ↔ (int k).Representable) := by
  obtain ⟨m, hm, htext⟩ := of_placed_int hx
  refine ⟨_, _, ⟨Numeral.isInteger_ofNat _ _, x, hx, htext⟩, Numeral.integer_ofNat_scaled _ m, ?_⟩
  rw [signed_eq_self_iff, Magnitude.scaled_zero_eq_iff hm]
  rfl

theorem toList_placed_thousandths {m : Magnitude} {x : String}
    (h : (double (.finite false m)).placed 3 = .ok x) :
    x.toList = (Numeral.ofThousandths (m.scaled 3)).text := by
  obtain ⟨v, hv, hx⟩ := of_placed h
  obtain rfl := Option.some.inj hv
  rw [hx, Numeral.text_ofThousandths, Binary64.fixed, Magnitude.fixed]
  rfl

end Number

/-! ## Lines of directives

For each kind of directive: if its numbers are written as numerals that are read in some way, its
line denotes the directive with the numbers so read.  Lines that are written as they were read are
then a special case, and so are those of directives that were put together otherwise
(`ErDiagram.Proofs.Directive.Keeping`). -/

/-- A line is recognised and stands for a directive. -/
def Denotes (line : List Char) (d : Directive) : Prop :=
  ∃ l : DirectiveLine, line = l.text ∧ l.WellFormed ∧ l.value = .ok d

/-- The color of a table in its line, where an empty one is left out. -/
def TablePosition.tint? (p : TablePosition) : Option String := p.color.filter (· ≠ "")

theorem TablePosition.Sound.tint?_eq {p : TablePosition} (h : p.Sound) : p.tint? = p.color := by
  have hcolor := h.color
  rw [tint?]
  cases hc : p.color with
  | none => rfl
  | some c =>
    have hne : c ≠ "" := by
      rintro rfl
      obtain ⟨ds, hds, -⟩ := hcolor "" hc
      cases hds
    exact Option.filter_some_pos (decide_eq_true hne)

namespace Directive

variable {d : Directive} {r : Option String}

theorem of_readableLine (h : d.readableLine = .ok r) : ∃ line, d.line = .ok line ∧
    r = if (d.slot.recognise? line.toList).isSome then some line else none := by
  obtain ⟨line, hline, h⟩ := bind_eq_ok_iff.1 h
  exact ⟨line, hline, (Except.ok.inj h).symm⟩

/-- A line that is the text of a well-formed line of the slot of its directive is readable. -/
theorem exists_readableLine {l : DirectiveLine} {line : String} {e : Directive}
    (hline : d.line = .ok line) (htext : line.toList = l.text) (hl : l.WellFormed)
    (hslot : l.slot = d.slot) (hvalue : l.value = .ok e) :
    ∃ line, d.readableLine = .ok (some line) ∧ Denotes line.toList e := by
  have hsome : (d.slot.recognise? line.toList).isSome = true := by
    rw [htext, ← hslot, DirectiveLine.slot_recognise?_text hl]
    rfl
  refine ⟨line, bind_eq_ok_iff.2 ⟨line, hline, ?_⟩, l, htext, hl, hvalue⟩
  exact congrArg Except.ok (if_pos hsome)

/-! ### The view

Both coordinates are integers that some value is rounded to, and such an integer is its own nearest
value. -/

/-- A view of coordinates that are written as numerals can be read. -/
theorem exists_readableLine_view {p : Point} {m n : Numeral} {a b : Int} (hx : p.x.Writes m)
    (hy : p.y.Writes n) (ha : m.rounded = .ok a) (hb : n.rounded = .ok b) :
    ∃ line, (view p).readableLine = .ok (some line) ∧
      Denotes line.toList (view ⟨.int a, .int b⟩) := by
  obtain ⟨hm, x, hx, hxtext⟩ := hx
  obtain ⟨hn, y, hy, hytext⟩ := hy
  refine exists_readableLine (l := .view m n)
    (bind_eq_ok_iff.2 ⟨x, hx, bind_eq_ok_iff.2 ⟨y, hy, rfl⟩⟩) ?_
    ⟨hm.toWellFormed, hn.toWellFormed⟩ rfl
    (bind_eq_ok_iff.2 ⟨a, ha, bind_eq_ok_iff.2 ⟨b, hb, rfl⟩⟩)
  rw [DirectiveLine.text_view, ← hxtext, ← hytext]
  simp only [String.toList_append]
  rfl

theorem rereads_view {p : Point} (h : (view p).Sound) (hr : (view p).readableLine = .ok r) :
    ∃ line, r = some line ∧ Denotes line.toList (view p) := by
  obtain ⟨line, hline, -⟩ := of_readableLine hr
  obtain ⟨px, py⟩ := p
  obtain ⟨⟨a, rfl, ma, hma⟩, ⟨b, rfl, mb, hmb⟩⟩ := h
  obtain ⟨x, hx, hline⟩ := bind_eq_ok_iff.1 hline
  obtain ⟨y, hy, hline⟩ := bind_eq_ok_iff.1 hline
  obtain ⟨nx, hx, ha⟩ := exists_numeral_of_isRounded ⟨a, rfl, ma, hma⟩ hx
  obtain ⟨ny, hy, hb⟩ := exists_numeral_of_isRounded ⟨b, rfl, mb, hmb⟩ hy
  obtain ⟨line, hline, hdenotes⟩ := exists_readableLine_view (p := ⟨.int a, .int b⟩) hx hy ha hb
  exact ⟨line, Except.ok.inj (hr.symm.trans hline), hdenotes⟩

/-! ### The zoom factor

Thousandths of a value that is nearest to some thousandths lead back to it.  An infinite factor is
written as a name, which no line of the slot has. -/

theorem rereads_zoom {factor : Number} (h : factor.IsThousandths)
    (hr : (zoom factor).readableLine = .ok r) :
    ∃ line, r = some line ∧ Denotes line.toList (zoom factor) := by
  obtain ⟨line, hline, -⟩ := of_readableLine hr
  obtain ⟨m, k, rfl, hm⟩ := h
  obtain ⟨x, hx, hline⟩ := bind_eq_ok_iff.1 hline
  have hnearest := Magnitude.nearest?_scaled_three hm
  have hround : (Numeral.ofThousandths (m.scaled 3)).toBinary64.roundThousandths =
      .finite false m := by
    rw [Numeral.toBinary64_ofThousandths hnearest, Binary64.roundThousandths_finite,
      Binary64.ofQuotient, hnearest, Option.elim_some]
  obtain ⟨line, hline, hdenotes⟩ := exists_readableLine (d := zoom (.double (.finite false m)))
    (l := .zoom (.ofThousandths (m.scaled 3))) (bind_eq_ok_iff.2 ⟨x, hx, rfl⟩)
    (by rw [DirectiveLine.text_zoom, ← toList_placed_thousandths hx, String.toList_append])
    ⟨Numeral.wellFormed_ofThousandths _, rfl⟩ rfl
    (congrArg (fun v ↦ Except.ok (zoom (.double v))) hround)
  exact ⟨line, Except.ok.inj (hr.symm.trans hline), hdenotes⟩

/-- There is no line for an infinite zoom factor. -/
theorem readableLine_zoom_infinite (negative : Bool) :
    (zoom (.double (.infinite negative))).readableLine = .ok none := by
  cases negative <;> rfl

/-! ### Colors

A color is written as it is. -/

theorem exists_readableLine_color {role : ColorRole} {value : String}
    (h : (color role value).Sound) : ∃ line, (color role value).readableLine = .ok (some line) ∧
      Denotes line.toList (color role value) := by
  refine exists_readableLine (l := .color role value.toList) rfl ?_ h rfl ?_
  · rw [DirectiveLine.text_color, String.toList_append]
    rfl
  · exact congrArg (fun v ↦ Except.ok (color role v)) String.ofList_toList

theorem rereads_color {role : ColorRole} {value : String} (h : (color role value).Sound)
    (hr : (color role value).readableLine = .ok r) :
    ∃ line, r = some line ∧ Denotes line.toList (color role value) := by
  obtain ⟨line, hline, hdenotes⟩ := exists_readableLine_color h
  exact ⟨line, Except.ok.inj (hr.symm.trans hline), hdenotes⟩

/-! ### Positions of tables

The name and the color are written as they are, and the coordinates as the values nearest to them,
which have 2098 digits at most and so can be read. -/

/-- The line for the position of a table, whatever name and color it has. -/
theorem exists_line_position (table : String) {p : TablePosition} {x y : String}
    (hx : p.x.placed 0 = .ok x) (hy : p.y.placed 0 = .ok y) :
    ∃ line, (position table p).line = .ok line ∧
      line.toList = "# ".toList ++ table.toList ++ " (".toList ++ (x.toList ++ ", ".toList ++
        y.toList ++ DirectiveLine.tintText (p.tint?.map String.toList) ++ [')']) := by
  refine ⟨_, bind_eq_ok_iff.2 ⟨x, hx, bind_eq_ok_iff.2 ⟨y, hy, rfl⟩⟩, ?_⟩
  obtain ⟨px, py, color⟩ := p
  cases color with
  | none => simp [TablePosition.tint?, DirectiveLine.tintText]
  | some c =>
    by_cases hc : c = "" <;>
      simp [TablePosition.tint?, DirectiveLine.tintText, Option.filter_some, hc]

/-- A position of coordinates that are written as numerals can be read if its name and its color
can. -/
theorem exists_readableLine_position {table : String} {p : TablePosition} {m n : Numeral}
    {a b : Int} (hword : isWord table.toList = true)
    (htint : ∀ c ∈ p.tint?, DirectiveLine.IsTint c.toList) (hx : p.x.Writes m)
    (hy : p.y.Writes n) (ha : m.integer = .ok a) (hb : n.integer = .ok b) :
    ∃ line, (position table p).readableLine = .ok (some line) ∧
      Denotes line.toList (position table ⟨.int a, .int b, p.tint?⟩) := by
  obtain ⟨hm, x, hx, hxtext⟩ := hx
  obtain ⟨hn, y, hy, hytext⟩ := hy
  have htints : ∀ c ∈ p.tint?.map String.toList, DirectiveLine.IsTint c := by
    intro c hc
    obtain ⟨t, ht, rfl⟩ := Option.map_eq_some_iff.1 hc
    exact htint t ht
  have hback : (p.tint?.map String.toList).map String.ofList = p.tint? := by
    cases p.tint? with
    | none => rfl
    | some t => exact congrArg some String.ofList_toList
  obtain ⟨line, hline, htext⟩ := exists_line_position table hx hy
  refine exists_readableLine (l := .position table.toList m n (p.tint?.map String.toList)) hline ?_
    ⟨hword, hm, hn, htints⟩ rfl (bind_eq_ok_iff.2 ⟨a, ha, bind_eq_ok_iff.2 ⟨b, hb, ?_⟩⟩)
  · rw [htext, hxtext, hytext]
    rfl
  · rw [hback, String.ofList_toList]
    rfl

theorem rereads_position {table : String} {p : TablePosition} (h : (position table p).Sound)
    (hr : (position table p).readableLine = .ok r) : ∃ line q, r = some line ∧
      Denotes line.toList (position table q) ∧ (q = p ↔ p.Representable) := by
  obtain ⟨hword, hp⟩ := h
  have htint := hp.tint?_eq
  obtain ⟨line, hline, -⟩ := of_readableLine hr
  obtain ⟨px, py, color⟩ := p
  obtain ⟨⟨a, ha⟩, ⟨b, hb⟩, hcolor⟩ := hp
  obtain rfl : px = .int a := ha
  obtain rfl : py = .int b := hb
  obtain ⟨x, hx, hline⟩ := bind_eq_ok_iff.1 hline
  obtain ⟨y, hy, hline⟩ := bind_eq_ok_iff.1 hline
  obtain ⟨nx, a', hx, ha', ha⟩ := exists_numeral_int hx
  obtain ⟨ny, b', hy, hb', hb⟩ := exists_numeral_int hy
  obtain ⟨line, hline, hdenotes⟩ :=
    exists_readableLine_position (p := ⟨.int a, .int b, color⟩) hword (by rwa [htint]) hx hy ha' hb'
  refine ⟨line, _, Except.ok.inj (hr.symm.trans hline), hdenotes, ?_⟩
  rw [TablePosition.mk.injEq, Number.int.injEq, Number.int.injEq, ha, hb, htint]
  exact ⟨fun h ↦ ⟨h.1, h.2.1⟩, fun h ↦ ⟨h.1, h.2, rfl⟩⟩

end Directive

end ErDiagram
