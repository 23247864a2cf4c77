import ErDiagram.Directive.Reading
import ErDiagram.Proofs.Directive.Setting

/-!
# Collecting the directives of a text

One pass over the lines finds the directives that count.  Whatever the lines are, the directives
found are sound (`Directive.sound_of_collect`).  Lines of which each denotes a directive that counts
give just these directives (`Directive.collect_of_denotes`), and lines that are no directive lines
may stand anywhere between them (`Directive.foldlM_collectLine_of_idle`).

What one more line does depends on the directives found so far only as far as they decide whether it
counts.  All statements about a text are therefore proved for a pass that has found something
already, and used for one that starts with nothing.
-/

set_option autoImplicit false

namespace ErDiagram

open Text

namespace Directive

variable {found ds : List Directive} {line : List Char} {lines : List (List Char)}

/-! ## One line

The three cases of a line: it is no directive line, it is one that counts, or it is one that does
not. -/

section Line

variable {l : DirectiveLine}

theorem collectLine_of_none (h : DirectiveLine.recognise? (trim line) = none) :
    collectLine found line = .ok found := by
  rw [collectLine, h]

theorem collectLine_of_counts (h : DirectiveLine.recognise? (trim line) = some l)
    (hcounts : counts found l.slot = true) :
    collectLine found line = l.value.map (found ++ [·]) := by
  rw [collectLine, h]
  exact if_pos hcounts

theorem collectLine_of_not_counts (h : DirectiveLine.recognise? (trim line) = some l)
    (hcounts : ¬counts found l.slot = true) : collectLine found line = .ok found := by
  rw [collectLine, h]
  exact if_neg hcounts

end Line

/-! ## Directives that are found

Only a line that is recognised adds a directive, and what its numbers are evaluated to is sound. -/

/-- A line adds at most one directive, and a sound one. -/
theorem sound_of_collectLine (h : ∀ d ∈ found, d.Sound) (hds : collectLine found line = .ok ds) :
    ∀ d ∈ ds, d.Sound := by
  rw [collectLine] at hds
  split at hds
  · obtain rfl := Except.ok.inj hds
    exact h
  next l hl =>
  split at hds
  · obtain ⟨d, hvalue, rfl⟩ := map_eq_ok_iff.1 hds
    obtain ⟨hwf, -⟩ := DirectiveLine.of_recognise? hl
    exact List.forall_mem_append.2
      ⟨h, List.forall_mem_singleton.2 (DirectiveLine.sound_of_value hwf hvalue)⟩
  · obtain rfl := Except.ok.inj hds
    exact h

theorem sound_of_foldlM (h : ∀ d ∈ found, d.Sound)
    (hds : lines.foldlM collectLine found = .ok ds) : ∀ d ∈ ds, d.Sound := by
  induction lines generalizing found with
  | nil =>
    obtain rfl := Except.ok.inj hds
    exact h
  | cons line lines ih =>
    rw [List.foldlM_cons] at hds
    obtain ⟨found', hline, hds⟩ := bind_eq_ok_iff.1 hds
    exact ih (sound_of_collectLine h hline) hds

/-- **The directives of any text are sound.** -/
theorem sound_of_collect (h : collect lines = .ok ds) : ∀ d ∈ ds, d.Sound :=
  sound_of_foldlM (List.forall_mem_nil _) h

/-! ## Lines that denote directives

In a list of directives that is to be written as it is, each has to count after all those before it.
For two of them this is `BothCount`, and for the whole list that any two of them, in their order,
are so. -/

/-- Of two directives the later one counts as well. -/
def BothCount (d e : Directive) : Prop := e.slot = .position ∨ d.slot ≠ e.slot

theorem counts_of_bothCount {d : Directive} (h : ∀ e ∈ found, BothCount e d) :
    counts found d.slot = true := by
  by_cases hposition : d.slot = .position
  · simp [counts, hposition]
  · have hne : ∀ e ∈ found, e.slot ≠ d.slot := fun e he ↦ (h e he).resolve_left hposition
    simpa [counts] using .inr hne

/-- A line that denotes a directive that counts adds this directive. -/
theorem collectLine_of_denotes {d : Directive} (h : Denotes line d)
    (hcounts : ∀ e ∈ found, BothCount e d) : collectLine found line = .ok (found ++ [d]) := by
  obtain ⟨l, rfl, hwf, hvalue⟩ := h
  have hslot : counts found l.slot = true := slot_of_value hvalue ▸ counts_of_bothCount hcounts
  rw [collectLine_of_counts (DirectiveLine.recognise?_trim_text hwf) hslot, hvalue]
  rfl

theorem foldlM_collectLine_of_denotes (h : List.Forall₂ Denotes lines ds)
    (hcounts : (found ++ ds).Pairwise BothCount) :
    lines.foldlM collectLine found = .ok (found ++ ds) := by
  induction h generalizing found with
  | nil =>
    rw [List.append_nil]
    rfl
  | cons hd _ ih =>
    rw [List.append_cons] at hcounts ⊢
    have hfound := (List.pairwise_append.1 (List.pairwise_append.1 hcounts).1).2.2
    rw [List.foldlM_cons, collectLine_of_denotes hd fun e he ↦ hfound e he _ List.mem_cons_self]
    exact ih hcounts

/-- **Lines that denote directives** are collected to these directives if all of them count. -/
theorem collect_of_denotes (h : List.Forall₂ Denotes lines ds) (hcounts : ds.Pairwise BothCount) :
    collect lines = .ok ds :=
  foldlM_collectLine_of_denotes h hcounts

/-! ## Lines between directives

The tables of a diagram stand between its directives.  Their lines do not start with a number sign,
and that is all that has to be known of them here. -/

/-- A line that is no remark is no directive line. -/
theorem collectLine_of_head (h : (trim line).head? ≠ some '#') :
    collectLine found line = .ok found := by
  cases hl : DirectiveLine.recognise? (trim line) with
  | none => exact collectLine_of_none hl
  | some l =>
    obtain ⟨hwf, htext⟩ := DirectiveLine.of_recognise? hl
    rw [htext] at h
    exact absurd (DirectiveLine.isRemark_text hwf).head h

/-- Lines that add no directive may stand in front of others. -/
theorem foldlM_collectLine_of_idle (h : ∀ l ∈ lines, (trim l).head? ≠ some '#')
    (rest : List (List Char)) :
    (lines ++ rest).foldlM collectLine found = rest.foldlM collectLine found := by
  induction lines with
  | nil => rfl
  | cons l ls ih =>
    obtain ⟨hl, hls⟩ := List.forall_mem_cons.1 h
    rw [List.cons_append, List.foldlM_cons, collectLine_of_head hl]
    exact ih hls

end Directive

end ErDiagram
