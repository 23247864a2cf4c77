import ErDiagram.Proofs.Number.Overflow
import ErDiagram.Proofs.Presentation.Heeded

/-!
# Lines at fault

The numbers of a directive line may be too large: a coordinate of a table has too many digits, or no
finite floating-point value is nearest to a coordinate of the view (`DirectiveLine.Fault`).  A view
line is evaluated only if it is the first of its text, so not every such line is at fault
(`DirectiveLine.FaultAt`).  A presentation cannot be read just in case some line is at fault, and
the first of them says why (`Presentation.read_eq_error_iff`).

Why a text cannot be read is said without following the pass.  A fault is described by what the line
says, digit for digit, and by where it stands; the position of the first fault is the one that is
reported.  The pass stops at the first line that fails, and the lines above it have been read, which
is why no fault can stand above (`Directive.exists_collect_take_iff`).
-/

set_option autoImplicit false

namespace ErDiagram

open Binary64 Number Text

/-! ## Numbers of a line

Which numbers are too large is decided by the digits alone.  For a coordinate of the view, it is the
size of the number that counts, for one of a table the number of its digits, leading zeros
included. -/

/-- A numeral stands for a number to which no finite floating-point value is nearest. -/
def Numeral.Overflows (n : Numeral) : Prop :=
  overflowBound * 10 ^ n.fraction.length ≤ ofDigits (n.whole ++ n.fraction)

theorem Numeral.rounded_eq_error_iff {n : Numeral} {e : Error} :
    n.rounded = .error e ↔ e = .infiniteCoordinate ∧ n.Overflows := by
  rw [Overflows, ← Magnitude.nearest?_eq_none_iff (Nat.pow_pos (by decide)), rounded, toBinary64,
    ofQuotient]
  cases Magnitude.nearest? (ofDigits (n.whole ++ n.fraction)) (10 ^ n.fraction.length) with
  | none =>
    rw [Option.elim_none, show (infinite n.negative).roundInt? = none from rfl, Option.elim_none]
    simp [eq_comm]
  | some m =>
    obtain ⟨k, hk⟩ : ∃ k, (finite n.negative m).roundInt? = some k := ⟨_, rfl⟩
    rw [Option.elim_some, hk, Option.elim_some]
    simp

theorem Numeral.integer_eq_error_iff {n : Numeral} {e : Error} :
    n.integer = .error e ↔ digitLimit < n.whole.length ∧ e = .tooManyDigits n.whole.length := by
  rw [integer]
  split
  · next h => simp [h, eq_comm]
  · next h => simp [h]

theorem Numeral.integer_eq_ok_iff {n : Numeral} {k : Int} :
    n.integer = .ok k ↔ n.whole.length ≤ digitLimit ∧ k = n.toInt := by
  rw [integer]
  split
  · next h => simp [Nat.not_le.2 h]
  · next h => simp [Nat.not_lt.1 h, eq_comm]

namespace DirectiveLine

/-- The numbers of a line cannot be evaluated.  Of two faulty coordinates of a table the first
counts. -/
inductive Fault : DirectiveLine → Error → Prop
  | view {x y : Numeral} (h : x.Overflows ∨ y.Overflows) : Fault (view x y) .infiniteCoordinate
  | x {table : List Char} {x y : Numeral} {tint : Option (List Char)}
    (hx : digitLimit < x.whole.length) :
    Fault (position table x y tint) (.tooManyDigits x.whole.length)
  | y {table : List Char} {x y : Numeral} {tint : Option (List Char)}
    (hx : x.whole.length ≤ digitLimit) (hy : digitLimit < y.whole.length) :
    Fault (position table x y tint) (.tooManyDigits y.whole.length)

variable {l m : DirectiveLine} {e : Error}

theorem Fault.slot_eq (h : l.Fault e) : l.slot = .view ∨ l.slot = .position := by
  cases h with
  | view => exact .inl rfl
  | x | y => exact .inr rfl

theorem value_view_eq_error_iff {x y : Numeral} :
    (view x y).value = .error e ↔ e = .infiniteCoordinate ∧ (x.Overflows ∨ y.Overflows) :=
  pair_eq_error_iff (fun _ ↦ Numeral.rounded_eq_error_iff) fun _ ↦ Numeral.rounded_eq_error_iff

/-- A line has no value just in case it is at fault. -/
theorem value_eq_error_iff : l.value = .error e ↔ l.Fault e := by
  constructor
  · intro h
    cases l with
    | view x y =>
      obtain ⟨rfl, hxy⟩ := value_view_eq_error_iff.1 h
      exact .view hxy
    | zoom | color => cases h
    | position table x y tint =>
      rcases bind_eq_error_iff.1 h with hx | ⟨a, hx, h⟩
      · obtain ⟨hlong, rfl⟩ := Numeral.integer_eq_error_iff.1 hx
        exact .x hlong
      rcases bind_eq_error_iff.1 h with hy | ⟨b, -, h⟩
      · obtain ⟨hlong, rfl⟩ := Numeral.integer_eq_error_iff.1 hy
        exact .y (Numeral.integer_eq_ok_iff.1 hx).1 hlong
      · cases h
  · intro h
    cases h with
    | view hxy => exact value_view_eq_error_iff.2 ⟨rfl, hxy⟩
    | x hx => exact bind_eq_error_iff.2 (.inl (Numeral.integer_eq_error_iff.2 ⟨hx, rfl⟩))
    | y hx hy =>
      refine bind_eq_error_iff.2 (.inr ⟨_, Numeral.integer_eq_ok_iff.2 ⟨hx, rfl⟩, ?_⟩)
      exact bind_eq_error_iff.2 (.inl (Numeral.integer_eq_error_iff.2 ⟨hy, rfl⟩))

/-! ## Lines of a text

Faults are located by the number of their line.  A part of a text from its start has the faults of
the whole text that stand in it, so the text can be cut at any line. -/

variable {ls : List (List Char)} {i j : Nat}

/-- The `i`-th line of a text is a given directive line, blanks around it aside. -/
def StandsAt (l : DirectiveLine) (ls : List (List Char)) (i : Nat) : Prop :=
  l.WellFormed ∧ ls[i]?.map trim = some l.text

theorem standsAt_iff : l.StandsAt ls i ↔ ∃ line, ls[i]? = some line ∧
    recognise? (trim line) = some l := by
  constructor
  · rintro ⟨hwf, htext⟩
    obtain ⟨line, hline, htrim⟩ := Option.map_eq_some_iff.1 htext
    exact ⟨line, hline, by rw [htrim, recognise?_text hwf]⟩
  · rintro ⟨line, hline, h⟩
    obtain ⟨hwf, htext⟩ := of_recognise? h
    exact ⟨hwf, by rw [hline, Option.map_some, htext]⟩

theorem standsAt_take : l.StandsAt (ls.take i) j ↔ j < i ∧ l.StandsAt ls j := by
  rw [StandsAt, StandsAt, List.getElem?_take]
  split
  · next h => simp [h]
  · next h => simp [h]

theorem mem_ofLines : l ∈ ofLines ls ↔ ∃ i, l.StandsAt ls i := by
  rw [ofLines, List.mem_filterMap]
  constructor
  · rintro ⟨line, hline, h⟩
    obtain ⟨i, hi⟩ := List.mem_iff_getElem?.1 hline
    exact ⟨i, standsAt_iff.2 ⟨line, hi, h⟩⟩
  · rintro ⟨i, hi⟩
    obtain ⟨line, hline, h⟩ := standsAt_iff.1 hi
    exact ⟨line, List.mem_of_getElem? hline, h⟩

/-- The `i`-th line of a text is evaluated and at fault. -/
def FaultAt (ls : List (List Char)) (i : Nat) (e : Error) : Prop :=
  ∃ l : DirectiveLine, l.StandsAt ls i ∧ l.Fault e ∧
    (l.slot = .view → ∀ j < i, ∀ m : DirectiveLine, m.StandsAt ls j → m.slot ≠ .view)

theorem faultAt_take : FaultAt (ls.take i) j e ↔ j < i ∧ FaultAt ls j e := by
  simp only [FaultAt, standsAt_take]
  constructor
  · rintro ⟨l, ⟨hj, hl⟩, hfault, hfirst⟩
    exact ⟨hj, l, hl, hfault, fun hs k hk m hm ↦ hfirst hs k hk m ⟨Nat.lt_trans hk hj, hm⟩⟩
  · rintro ⟨hj, l, hl, hfault, hfirst⟩
    exact ⟨l, ⟨hj, hl⟩, hfault, fun hs k hk m hm ↦ hfirst hs k hk m hm.2⟩

end DirectiveLine

/-! ## Reading

The line that fails in the pass is the first that is evaluated and at fault.  The only faulty lines
that are not evaluated are views below another view, because colors and zoom factors always have a
value and every position line is evaluated. -/

namespace Directive

open DirectiveLine

variable {found found' : List Directive} {ls : List (List Char)} {line : List Char} {i : Nat}
  {l : DirectiveLine} {e : Error}

/-- A line counts below others just in case it counts at their start and is heeded below each. -/
theorem counts_of_foldlM (h : ls.foldlM collectLine found = .ok found') :
    counts found' l.slot = true ↔
      counts found l.slot = true ∧ ∀ m ∈ ofLines ls, heededBelow m.slot l = true := by
  induction ls generalizing found with
  | nil =>
    obtain rfl := Except.ok.inj h
    simp [ofLines]
  | cons line ls ih =>
    rw [List.foldlM_cons] at h
    obtain ⟨found₁, hline, h⟩ := bind_eq_ok_iff.1 h
    rw [ih h]
    cases hm : recognise? (trim line) with
    | none =>
      rw [collectLine_of_none hm] at hline
      obtain rfl := Except.ok.inj hline
      rw [show ofLines (line :: ls) = ofLines ls from List.filterMap_cons_none hm]
    | some m =>
      rw [show ofLines (line :: ls) = m :: ofLines ls from List.filterMap_cons_some hm,
        List.forall_mem_cons, ← and_assoc]
      refine and_congr_left' ?_
      by_cases hcounts : counts found m.slot = true
      · rw [collectLine_of_counts hm hcounts] at hline
        obtain ⟨d, hvalue, rfl⟩ := map_eq_ok_iff.1 hline
        rw [counts_append, slot_of_value hvalue, Bool.and_eq_true]
      · rw [collectLine_of_not_counts hm hcounts] at hline
        obtain rfl := Except.ok.inj hline
        exact (and_iff_left_of_imp (heededBelow_of_counts hcounts)).symm

/-- One line fails just in case it counts and is at fault. -/
theorem collectLine_eq_error_iff : collectLine found line = .error e ↔
    ∃ l, recognise? (trim line) = some l ∧ counts found l.slot = true ∧ l.Fault e := by
  cases hl : recognise? (trim line) with
  | none => simp [collectLine_of_none hl]
  | some l =>
    by_cases hcounts : counts found l.slot = true
    · simp [collectLine_of_counts hl hcounts, map_eq_error_iff, value_eq_error_iff, hcounts]
    · simp [collectLine_of_not_counts hl hcounts, hcounts]

/-- A line that is at fault counts if it is a position line or no view line stands above it. -/
theorem counts_iff_of_fault (h : collect (ls.take i) = .ok found) (hfault : l.Fault e) :
    counts found l.slot = true ↔
      (l.slot = .view → ∀ j < i, ∀ m : DirectiveLine, m.StandsAt ls j → m.slot ≠ .view) := by
  have hcounts : counts found l.slot = true ↔
      ∀ j < i, ∀ m : DirectiveLine, m.StandsAt ls j → heededBelow m.slot l = true := by
    rw [counts_of_foldlM h, and_iff_right (by simp [counts])]
    simp only [mem_ofLines, standsAt_take, forall_exists_index, and_imp]
    exact ⟨fun h j hj m hm ↦ h m j hj hm, fun h m j hj hm ↦ h j hj m hm⟩
  rw [hcounts]
  rcases hfault.slot_eq with hs | hs
  · simp [heededBelow, hs, @eq_comm _ Slot.view]
  · simp [heededBelow, hs]

/-- **A line of a text fails** just in case it is evaluated and at fault. -/
theorem collectLine_eq_error_iff_faultAt (h : collect (ls.take i) = .ok found)
    (hline : ls[i]? = some line) : collectLine found line = .error e ↔ FaultAt ls i e := by
  rw [collectLine_eq_error_iff, FaultAt]
  refine exists_congr fun l ↦ ?_
  rw [standsAt_iff, hline]
  simp only [Option.some.injEq, exists_eq_left']
  refine and_congr_right fun _ ↦ ?_
  rw [and_comm]
  exact and_congr_right fun hfault ↦ counts_iff_of_fault h hfault

theorem collect_eq_error_iff : collect ls = .error e ↔
    ∃ i, FaultAt ls i e ∧ ∃ found, collect (ls.take i) = .ok found := by
  rw [collect, foldlM_eq_error_iff]
  refine exists_congr fun i ↦ ?_
  constructor
  · rintro ⟨found, line, hrun, hline, h⟩
    exact ⟨(collectLine_eq_error_iff_faultAt hrun hline).1 h, found, hrun⟩
  · rintro ⟨hfault, found, hrun⟩
    obtain ⟨l, hl, -⟩ := id hfault
    obtain ⟨line, hline, -⟩ := standsAt_iff.1 hl
    exact ⟨found, line, hrun, hline, (collectLine_eq_error_iff_faultAt hrun hline).2 hfault⟩

/-- Some line of a text fails just in case some line is at fault. -/
theorem exists_collect_eq_error_iff : (∃ e, collect ls = .error e) ↔ ∃ i e, FaultAt ls i e := by
  constructor
  · rintro ⟨e, he⟩
    obtain ⟨i, hfault, -⟩ := collect_eq_error_iff.1 he
    exact ⟨i, e, hfault⟩
  · rintro ⟨i, e, hfault⟩
    cases hrun : collect (ls.take i) with
    | ok found => exact ⟨e, collect_eq_error_iff.2 ⟨i, hfault, found, hrun⟩⟩
    | error e' =>
      refine ⟨e', ?_⟩
      rw [← List.take_append_drop i ls, collect, List.foldlM_append]
      exact bind_eq_error_iff.2 (.inl hrun)

/-- The lines above one are read just in case none of them is at fault. -/
theorem exists_collect_take_iff : (∃ found, collect (ls.take i) = .ok found) ↔
    ∀ j < i, ∀ e, ¬FaultAt ls j e := by
  have hfails : (∃ e, collect (ls.take i) = .error e) ↔ ∃ j < i, ∃ e, FaultAt ls j e := by
    simp only [exists_collect_eq_error_iff, faultAt_take, exists_and_left]
  have hor : (∃ found, collect (ls.take i) = .ok found) ↔ ¬∃ e, collect (ls.take i) = .error e := by
    cases collect (ls.take i) <;> simp
  rw [hor, hfails]
  simp

end Directive

namespace Presentation

open Directive DirectiveLine

variable {ls : List (List Char)} {e : Error}

/-- **The first line at fault** is why a presentation cannot be read. -/
theorem read_eq_error_iff : read ls = .error e ↔
    ∃ i, FaultAt ls i e ∧ ∀ j < i, ∀ e', ¬FaultAt ls j e' := by
  rw [read, map_eq_error_iff, collect_eq_error_iff]
  simp only [exists_collect_take_iff]

/-- **A presentation cannot be read** just in case some line is at fault. -/
theorem exists_read_eq_error_iff : (∃ e, read ls = .error e) ↔ ∃ i e, FaultAt ls i e := by
  simp only [read, map_eq_error_iff, exists_collect_eq_error_iff]

end Presentation

end ErDiagram
