import ErDiagram.Proofs.Directive.Readable

/-!
# What is kept of a directive

A directive that was put together in memory may hold any text for a name or a color, line breaks and
imitations of other directives among them.  Its line is written if and only if its own name and
color can be read, and then it is read as what was written, whatever they are
(`Directive.keptAs_or_none`).  Coordinates are to be integers that lose nothing when they are
written (`Number.IsExact`); they may be floating-point values.

The condition on coordinates is the one under which they lose nothing, and without it the statement
would be about rounding.  Of the zoom factor nothing is said here, because it is rounded to
thousandths when it is written and so changes in general.
-/

set_option autoImplicit false

namespace ErDiagram

open Text

/-! ## Coordinates

A floating-point value may be an integer, and then it is written like one.  Up to `2 ^ 53` every
integer is a value; it is written as it is and read as an integer. -/

namespace Number

/-- A number is an integer: as such, or as a floating-point value. -/
inductive Is : Number → Int → Prop
  | int (k : Int) : Is (int k) k
  | double (negative : Bool) {m : Magnitude} {n : Nat}
    (h : m.units = n * Binary64.unitsPerOne) :
    Is (double (.finite negative m)) (if negative then -(n : Int) else n)

/-- A number is an integer of a magnitude of at most `2 ^ 53`. -/
def IsExact (n : Number) : Prop := ∃ k, n.Is k ∧ k.natAbs ≤ 2 ^ 53

variable {n : Number} {j k : Int}

theorem Is.unique (hj : n.Is j) (hk : n.Is k) : j = k := by
  cases hj with
  | int => cases hk; rfl
  | double negative hj =>
    cases hk with
    | double _ hk =>
      rw [Nat.eq_of_mul_eq_mul_right Binary64.unitsPerOne_pos (hj.symm.trans hk)]

/-- A number with a finite value nearest to it is written as that value, rounded to an integer. -/
theorem writes_of_toBinary64? {negative : Bool} {m : Magnitude}
    (h : n.toBinary64? = some (.finite negative m)) :
    n.Writes (.ofNat negative (m.scaled 0)) := by
  refine ⟨Numeral.isInteger_ofNat _ _, String.ofList ((Binary64.finite negative m).fixed 0), ?_, ?_⟩
  · rw [placed, fixed?, h]
    rfl
  · rw [String.toList_ofList, Numeral.text_ofNat]
    rfl

/-- An integer of at most fifty-three bits is written as a numeral that stands for it. -/
theorem Is.exists_writes (h : n.Is k) (hk : k.natAbs ≤ 2 ^ 53) : ∃ m : Numeral, n.Writes m ∧
    m.integer = .ok k ∧ m.rounded = .ok k := by
  obtain ⟨negative, m, hvalue, rfl⟩ : ∃ negative m, n.toBinary64? = some (.finite negative m) ∧
      k = if negative then -(m.scaled 0 : Int) else m.scaled 0 := by
    cases h with
    | int =>
      obtain ⟨m, hm, hscaled⟩ := Magnitude.exists_nearest?_of_isShort (Magnitude.isShort_of_le hk)
        (Magnitude.mul_unitsPerOne_lt hk)
      refine ⟨decide (k < 0), m, ?_, (signed_eq_self_iff.2 hscaled).symm⟩
      rw [toBinary64?, Binary64.ofInt?, hm]
      rfl
    | double negative hunits =>
      exact ⟨negative, _, rfl, by rw [Magnitude.scaled_zero_of_units hunits]⟩
  exact ⟨_, writes_of_toBinary64? hvalue, Numeral.integer_ofNat_scaled negative m,
    Numeral.rounded_ofNat_scaled negative m⟩

end Number

/-! ## Directives

`KeptAs` relates a directive to what it is read as, without going through the line.  It has no case
for names and colors that cannot be read, so not being related to anything is the same as having no
line. -/

/-- A color that a line can set: a number sign and a word. -/
def IsColor (value : String) : Prop := ∃ w, value.toList = '#' :: w ∧ isWord w = true

namespace Directive

/-- What a directive is read as, if it can be: the coordinates become integers, and an empty color
of a table becomes none. -/
inductive KeptAs : Directive → Directive → Prop
  | view {p : Point} {a b : Int} (hx : p.x.Is a) (hy : p.y.Is b) :
    KeptAs (view p) (view ⟨.int a, .int b⟩)
  | color (role : ColorRole) {value : String} (h : IsColor value) :
    KeptAs (color role value) (color role value)
  | position {table : String} {p : TablePosition} {a b : Int} (ht : isWord table.toList = true)
    (htint : ∀ c ∈ p.tint?, DirectiveLine.IsTint c.toList) (hx : p.x.Is a) (hy : p.y.Is b) :
    KeptAs (position table p) (position table ⟨.int a, .int b, p.tint?⟩)

/-- A directive but for the zoom factor, with coordinates that lose nothing when they are
written. -/
def IsExact : Directive → Prop
  | view p => p.x.IsExact ∧ p.y.IsExact
  | zoom _ => False
  | color _ _ => True
  | position _ p => p.x.IsExact ∧ p.y.IsExact

variable {d e f : Directive}

theorem KeptAs.setting_eq (h : d.KeptAs e) : e.setting = d.setting := by
  cases h <;> rfl

theorem KeptAs.unique (he : d.KeptAs e) (hf : d.KeptAs f) : e = f := by
  cases he with
  | view hx hy =>
    cases hf with
    | view hx' hy' => rw [hx.unique hx', hy.unique hy']
  | color => cases hf; rfl
  | position _ _ hx hy =>
    cases hf with
    | position _ _ hx' hy' => rw [hx.unique hx', hy.unique hy']

/-- No line is written for a directive whose line is that of no directive of its slot. -/
theorem readableLine_eq_none {line : String} (hline : d.line = .ok line)
    (h : ∀ l : DirectiveLine, l.slot = d.slot → l.WellFormed → line.toList ≠ l.text) :
    d.readableLine = .ok none := by
  refine bind_eq_ok_iff.2 ⟨line, hline, congrArg Except.ok (if_neg fun hsome ↦ ?_)⟩
  obtain ⟨l, hl⟩ := Option.isSome_iff_exists.1 hsome
  obtain ⟨hslot, hwf, htext⟩ := Slot.of_recognise? hl
  exact h l hslot hwf htext

/-- A color that no line can set is not written. -/
theorem readableLine_color_eq_none {role : ColorRole} {value : String} (h : ¬IsColor value) :
    (color role value).readableLine = .ok none := by
  refine readableLine_eq_none rfl fun l hslot hwf htext ↦ h ?_
  cases l with
  | color role' w =>
    obtain rfl := Slot.color.inj hslot
    rw [String.toList_append] at htext
    have hvalue : value.toList = w := List.append_cancel_left htext
    rw [IsColor, hvalue]
    exact hwf
  | view | zoom | position => cases hslot

/-- A position with a name or a color that no line can set is not written. -/
theorem readableLine_position_eq_none {table : String} {p : TablePosition} {x y : String}
    (hx : p.x.placed 0 = .ok x) (hy : p.y.placed 0 = .ok y)
    (h : ¬(isWord table.toList = true ∧ ∀ c ∈ p.tint?, DirectiveLine.IsTint c.toList)) :
    (position table p).readableLine = .ok none := by
  obtain ⟨line, hline, -⟩ := exists_line_position table hx hy
  refine readableLine_eq_none hline fun l hslot hwf htext ↦ h ?_
  cases l with
  | position T X Y tint =>
    obtain ⟨rfl, rfl, -⟩ := of_text_position hline hwf htext
    obtain ⟨hword, -, -, htint⟩ := hwf
    exact ⟨hword, fun c hc ↦ htint _ (Option.mem_map_of_mem _ hc)⟩
  | view | zoom | color => cases hslot

/-- **A directive is written as a line that it is read back from, or not at all**, and the latter if
and only if no line can say it. -/
theorem keptAs_or_none (h : d.IsExact) :
    (∃ line e, d.readableLine = .ok (some line) ∧ Denotes line.toList e ∧ d.KeptAs e) ∨
      d.readableLine = .ok none ∧ ∀ e, ¬d.KeptAs e := by
  cases d with
  | view p =>
    obtain ⟨⟨a, ha, hboundA⟩, b, hb, hboundB⟩ := h
    obtain ⟨m, hm, -, hroundA⟩ := ha.exists_writes hboundA
    obtain ⟨n, hn, -, hroundB⟩ := hb.exists_writes hboundB
    obtain ⟨line, hline, hdenotes⟩ := exists_readableLine_view hm hn hroundA hroundB
    exact .inl ⟨line, _, hline, hdenotes, .view ha hb⟩
  | zoom => exact h.elim
  | color role value =>
    by_cases hcolor : IsColor value
    · have hsound : (color role value).Sound := hcolor
      obtain ⟨line, hline, hdenotes⟩ := exists_readableLine_color hsound
      exact .inl ⟨line, _, hline, hdenotes, .color role hcolor⟩
    · refine .inr ⟨readableLine_color_eq_none hcolor, fun e he ↦ ?_⟩
      cases he with
      | color _ h => exact hcolor h
  | position table p =>
    obtain ⟨⟨a, ha, hboundA⟩, b, hb, hboundB⟩ := h
    obtain ⟨m, hm, hintegerA, -⟩ := ha.exists_writes hboundA
    obtain ⟨n, hn, hintegerB, -⟩ := hb.exists_writes hboundB
    by_cases hread : isWord table.toList = true ∧ ∀ c ∈ p.tint?, DirectiveLine.IsTint c.toList
    · obtain ⟨line, hline, hdenotes⟩ :=
        exists_readableLine_position hread.1 hread.2 hm hn hintegerA hintegerB
      exact .inl ⟨line, _, hline, hdenotes, .position hread.1 hread.2 ha hb⟩
    · obtain ⟨-, x, hx, -⟩ := hm
      obtain ⟨-, y, hy, -⟩ := hn
      refine .inr ⟨readableLine_position_eq_none hx hy hread, fun e he ↦ ?_⟩
      cases he with
      | position ht htint => exact hread ⟨ht, htint⟩

end Directive

end ErDiagram
