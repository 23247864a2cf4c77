import ErDiagram.Directive.Line
import ErDiagram.Proofs.Text.Literal
import ErDiagram.Proofs.Text.Lines

/-!
# Numerals in directive lines

A numeral is read just where it stands: whatever the readers of numbers take off a line is the text
of a numeral (`real?_eq_some`, `natural?_eq_some`, `signed?_eq_some`), and before anything but a
digit or a point they take the text of a numeral off whole (`real?_text`, `natural?_text`,
`signed?_text`).

A reader of numbers stops where it cannot go on, so a numeral is read off whole only if what stands
behind it does not go on with it.  In the lines of directives a comma, a parenthesis or the end
stands there (`Ends`).  The converse needs no such condition, because there the text behind is
whatever the reader has left.
-/

set_option autoImplicit false

namespace ErDiagram

open Number Text

/-! ## The text of a numeral

A numeral keeps its digits as they are spelled, leading zeros included, since two spellings of one
number make two lines.  `WellFormed` says which numerals have a text that is read as a number. -/

namespace Numeral

/-- The text of a numeral. -/
def text (n : Numeral) : List Char :=
  signed n.negative (n.whole ++ if n.fraction.isEmpty then [] else '.' :: n.fraction)

/-- A numeral that stands for a number. -/
structure WellFormed (n : Numeral) : Prop where
  /-- There is a digit before the point. -/
  whole_ne_nil : n.whole ≠ []
  /-- Digits stand before the point. -/
  whole : ∀ c ∈ n.whole, c.isDigit = true
  /-- Digits stand behind the point. -/
  fraction : ∀ c ∈ n.fraction, c.isDigit = true

/-- A numeral without a fraction. -/
structure IsInteger (n : Numeral) : Prop extends WellFormed n where
  /-- There is no fraction. -/
  fraction_eq : n.fraction = []

/-- The characters of a numeral. -/
def isNumeralChar (c : Char) : Bool := c.isDigit || c == '.' || c == '-'

theorem WellFormed.isNumeralChar_of_mem {n : Numeral} (h : n.WellFormed) {c : Char}
    (hc : c ∈ n.text) : isNumeralChar c = true := by
  have hdigit {d : Char} (hd : d.isDigit = true) : isNumeralChar d = true := by
    simp [isNumeralChar, hd]
  have hbody : ∀ d ∈ n.whole ++ (if n.fraction.isEmpty then [] else '.' :: n.fraction),
      isNumeralChar d = true := by
    refine List.forall_mem_append.2 ⟨fun d hd ↦ hdigit (h.whole d hd), ?_⟩
    split
    · exact List.forall_mem_nil _
    · exact List.forall_mem_cons.2 ⟨by decide, fun d hd ↦ hdigit (h.fraction d hd)⟩
  rw [text, signed] at hc
  split at hc
  · rcases List.mem_cons.1 hc with rfl | hc
    · decide
    · exact hbody c hc
  · exact hbody c hc

/-- A numeral without a sign starts with a digit. -/
theorem WellFormed.head {n : Numeral} (h : n.WellFormed) (hn : n.negative = false) :
    ∃ c cs, n.text = c :: cs ∧ c.isDigit = true := by
  obtain ⟨c, cs, hwhole⟩ := List.exists_cons_of_ne_nil h.whole_ne_nil
  refine ⟨c, cs ++ if n.fraction.isEmpty then [] else '.' :: n.fraction, ?_,
    h.whole c (hwhole ▸ List.mem_cons_self)⟩
  rw [text, hn, hwhole]
  rfl

theorem IsInteger.text_eq {n : Numeral} (h : n.IsInteger) :
    n.text = signed n.negative n.whole := by
  rw [text, h.fraction_eq]
  simp

end Numeral

/-! ## Reading

The readers with and without a fraction have the same two lemmas each, and what a sign in front
changes is proved once for both of them. -/

namespace Recognise

section Run

variable {p : Char → Bool} {cs rest : List Char}

theorem run?_eq_some {r : List Char} (h : run? p cs = some (r, rest)) :
    r ≠ [] ∧ (∀ c ∈ r, p c = true) ∧ cs = r ++ rest := by
  simp only [run?] at h
  split at h
  · cases h
  · next hne =>
    obtain ⟨rfl, rfl⟩ := Prod.mk.inj (Option.some.inj h)
    exact ⟨by simpa using hne, fun c ↦ of_mem_takeWhile, List.takeWhile_append_dropWhile.symm⟩

theorem run?_append {r : List Char} (hne : r ≠ []) (hr : ∀ c ∈ r, p c = true)
    (hrest : ∀ c ∈ rest.head?, p c = false) : run? p (r ++ rest) = some (r, rest) := by
  simp only [run?, takeWhile_run hr hrest, dropWhile_run hr hrest]
  exact if_neg (by simpa using hne)

end Run

variable {cs rest : List Char} {n : Numeral}

/-- What may stand behind a numeral. -/
def Ends (rest : List Char) : Prop := ∀ c ∈ rest.head?, c.isDigit = false ∧ c ≠ '.'

theorem real?_eq_some (h : real? cs = some (n, rest)) :
    n.WellFormed ∧ n.negative = false ∧ cs = n.text ++ rest := by
  simp only [real?, Option.bind_eq_bind, Option.bind_eq_some_iff] at h
  obtain ⟨⟨whole, rest'⟩, hwhole, h⟩ := h
  obtain ⟨hne, hdigits, rfl⟩ := run?_eq_some hwhole
  split at h
  · next fraction rest'' hfraction =>
    obtain ⟨cs, hpoint, hrun⟩ := Option.bind_eq_some_iff.1 hfraction
    obtain ⟨hne', hdigits', rfl⟩ := run?_eq_some hrun
    obtain ⟨rfl, rfl⟩ := Prod.mk.inj (Option.some.inj h)
    have hempty : fraction.isEmpty = false := by simpa using hne'
    refine ⟨⟨hne, hdigits, hdigits'⟩, rfl, ?_⟩
    rw [show rest' = _ from literal?_eq_some_iff.1 hpoint, Numeral.text, hempty]
    simp [signed]
  · obtain ⟨rfl, rfl⟩ := Prod.mk.inj (Option.some.inj h)
    exact ⟨⟨hne, hdigits, List.forall_mem_nil _⟩, rfl, by simp [Numeral.text, signed]⟩

theorem natural?_eq_some (h : natural? cs = some (n, rest)) :
    n.IsInteger ∧ n.negative = false ∧ cs = n.text ++ rest := by
  simp only [natural?, Option.bind_eq_bind, Option.bind_eq_some_iff] at h
  obtain ⟨⟨whole, rest'⟩, hwhole, h⟩ := h
  obtain ⟨hne, hdigits, rfl⟩ := run?_eq_some hwhole
  obtain ⟨rfl, rfl⟩ := Prod.mk.inj (Option.some.inj h)
  exact ⟨⟨⟨hne, hdigits, List.forall_mem_nil _⟩, rfl⟩, rfl, by simp [Numeral.text, signed]⟩

theorem real?_text (h : n.WellFormed) (hn : n.negative = false) (hrest : Ends rest) :
    real? (n.text ++ rest) = some (n, rest) := by
  obtain ⟨negative, whole, fraction⟩ := n
  obtain rfl : negative = false := hn
  cases fraction with
  | nil =>
    -- the rest does not start with a point, which would be read as one of the number
    have hpoint : literal? "." rest = none := by
      refine Option.eq_none_iff_forall_ne_some.2 ?_
      intro cs hcs
      rw [literal?_eq_some_iff.1 hcs] at hrest
      exact (hrest '.' rfl).2 rfl
    have hrun := run?_append h.whole_ne_nil h.whole fun c hc ↦ (hrest c hc).1
    simp [real?, Numeral.text, signed, hrun, hpoint]
  | cons d ds =>
    have hpoint : literal? "." ('.' :: (d :: ds ++ rest)) = some (d :: ds ++ rest) :=
      literal?_eq_some_iff.2 rfl
    have hfraction := run?_append (List.cons_ne_nil d ds) h.fraction fun c hc ↦ (hrest c hc).1
    have hrun : run? Char.isDigit (whole ++ '.' :: (d :: ds ++ rest)) =
        some (whole, '.' :: (d :: ds ++ rest)) :=
      run?_append h.whole_ne_nil h.whole fun c hc ↦ by cases hc; decide
    have htext : Numeral.text ⟨false, whole, d :: ds⟩ ++ rest = whole ++ '.' :: (d :: ds ++ rest) :=
      by simp [Numeral.text, signed]
    rw [htext, real?, hrun]
    simp only [Option.bind_eq_bind, Option.bind_some, hpoint, hfraction]
    rfl

theorem natural?_text (h : n.IsInteger) (hn : n.negative = false) (hrest : Ends rest) :
    natural? (n.text ++ rest) = some (n, rest) := by
  have hrun := run?_append h.whole_ne_nil h.whole fun c hc ↦ (hrest c hc).1
  obtain ⟨negative, whole, fraction⟩ := n
  obtain rfl : negative = false := hn
  obtain rfl : fraction = [] := h.fraction_eq
  simp [natural?, Numeral.text, signed, hrun]

section Signed

variable {number? : List Char → Option (Numeral × List Char)} {P : Numeral → Prop}

theorem signed?_eq_some (hsign : ∀ m : Numeral, P m → P { m with negative := true })
    (hnumber : ∀ cs m rest, number? cs = some (m, rest) →
      P m ∧ m.negative = false ∧ cs = m.text ++ rest)
    (h : signed? number? cs = some (n, rest)) : P n ∧ cs = n.text ++ rest := by
  rw [signed?] at h
  split at h
  · next cs' hminus =>
    obtain ⟨⟨m, rest'⟩, hm, heq⟩ := Option.map_eq_some_iff.1 h
    obtain ⟨rfl, rfl⟩ := Prod.mk.inj heq
    obtain ⟨hP, hneg, rfl⟩ := hnumber _ _ _ hm
    refine ⟨hsign m hP, ?_⟩
    rw [literal?_eq_some_iff.1 hminus, Numeral.text, Numeral.text, hneg]
    rfl
  · obtain ⟨hP, _, heq⟩ := hnumber _ _ _ h
    exact ⟨hP, heq⟩

theorem signed?_text (hP : P { n with negative := false }) (hwf : n.WellFormed)
    (hnumber : ∀ m : Numeral, P m → m.negative = false →
      number? (m.text ++ rest) = some (m, rest)) :
    signed? number? (n.text ++ rest) = some (n, rest) := by
  have hunsigned := hnumber _ hP rfl
  obtain ⟨negative, whole, fraction⟩ := n
  cases negative with
  | true =>
    have hminus : literal? "-" (Numeral.text ⟨true, whole, fraction⟩ ++ rest) =
        some (Numeral.text ⟨false, whole, fraction⟩ ++ rest) := literal?_eq_some_iff.2 rfl
    rw [signed?, hminus]
    simp only [hunsigned, Option.map_some]
  | false =>
    have hminus : literal? "-" (Numeral.text ⟨false, whole, fraction⟩ ++ rest) = none := by
      refine Option.eq_none_iff_forall_ne_some.2 ?_
      intro cs hcs
      obtain ⟨c, cs', hc, hdigit⟩ := hwf.head rfl
      rw [hc] at hcs
      obtain ⟨rfl, _⟩ := List.cons.inj (literal?_eq_some_iff.1 hcs)
      exact absurd hdigit (by decide)
    rw [signed?, hminus]
    exact hunsigned

end Signed

end Recognise

end ErDiagram
