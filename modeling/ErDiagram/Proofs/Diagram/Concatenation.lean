import ErDiagram.Proofs.Diagram.Remarks
import ErDiagram.Proofs.Presentation.Merging

/-!
# One text behind another

Two texts with an empty line between them are read as the tables of the one and then those of the
other, with the one presentation merged with the other (`Diagram.ofText_append`).  The empty line
closes the table that is open, and it is not one of dashes, so that no name at the end of the first
text becomes a header (`TableReader.run_append_blank`); tables that are closed stay as they are
(`TableReader.run_behind`).
-/

set_option autoImplicit false

namespace ErDiagram

open Text

/-! ## Tables behind tables

The reader is run on the second text with the tables of the first one closed.  Since it only adds to
the closed tables, they can be taken out in front of what it does with the rest. -/

namespace TableReader

/-- A reader with closed tables in front of its own. -/
def behind (ts : List Table) (r : TableReader) : TableReader := ⟨ts ++ r.closed, r.current⟩

theorem tables_behind (ts : List Table) (r : TableReader) :
    (r.behind ts).tables = ts ++ r.tables := List.append_assoc ts r.closed r.current.toList

variable {ts : List Table} {r : TableReader} {ls rest : List (List Char)}

/-- No line changes a table that is closed. -/
theorem add_behind (ts : List Table) (r : TableReader) (l : Line) :
    (r.behind ts).add l = (r.add l).behind ts := by
  rw [add.eq_def, add.eq_def]
  cases l.kind with
  | header | blank =>
    rw [tables_behind]
    rfl
  | text =>
    rw [behind]
    dsimp only
    split <;> rfl
  | directive | comment | dashes => rfl

theorem run_behind (ts : List Table) (r : TableReader) (ls : List (List Char)) :
    (r.behind ts).run ls = (r.run ls).behind ts := by
  induction ls generalizing r with
  | nil => rfl
  | cons l ls ih => rw [run_cons, run_cons, add_behind, ih]

/-- An empty line closes the table that the lines above it leave open. -/
theorem run_append_blank (r : TableReader) (ls rest : List (List Char)) :
    r.run (ls ++ [] :: rest) = (⟨(r.run ls).tables, none⟩ : TableReader).run rest := by
  induction ls generalizing r with
  | nil => exact run_blank r rest
  | cons l ls ih =>
    have hkind : Line.kindAbove l (ls ++ [] :: rest).head? = Line.kindAbove l ls.head? := by
      refine Line.kindAbove_congr fun _ ↦ ?_
      rcases ls with _ | ⟨m, ls⟩
      · exact iff_of_false (by simp [Line.baseKind]) (by simp)
      · exact Iff.rfl
    rw [List.cons_append, run_cons, run_cons, hkind, ih]

/-- The tables of lines behind an empty line come behind those of the lines above. -/
theorem tables_run_append_blank (ls rest : List (List Char)) :
    (run {} (ls ++ [] :: rest)).tables = (run {} ls).tables ++ (run {} rest).tables := by
  have hclosed : (⟨(run {} ls).tables, none⟩ : TableReader) =
      behind (run {} ls).tables {} := by
    rw [behind, List.append_nil]
  rw [run_append_blank, hclosed, run_behind, tables_behind]

end TableReader

/-! ## Texts behind texts

How many empty lines there are between the texts depends on whether the first one ends with a line
break.  One at least there is, and any more of them change nothing. -/

/-- Empty lines set nothing. -/
theorem Presentation.read_replicate_append (n : Nat) (ls : List (List Char)) :
    read (List.replicate n [] ++ ls) = read ls := by
  have hidle : ∀ l ∈ List.replicate n ([] : List Char), (trim l).head? ≠ some '#' := by
    intro l hl
    rw [List.eq_of_mem_replicate hl]
    exact nofun
  rw [read, read, Directive.collect, Directive.collect, Directive.foldlM_collectLine_of_idle hidle]

namespace Diagram

variable {s t : String} {d e : Diagram}

/-! ### Lines, tables and presentations

The three parts of reading are followed separately: the lines of the whole text, the tables read off
them, and the presentation. -/

/-- The lines of two texts with an empty line between them. -/
theorem exists_lines_append (s t : String) : ∃ n, lines (s ++ "\n\n" ++ t).toList =
    lines s.toList ++ List.replicate n [] ++ [] :: lines t.toList := by
  obtain ⟨n, hn⟩ := exists_lines_append_lineFeed s.toList
  refine ⟨n, ?_⟩
  have htext : (s ++ "\n\n" ++ t).toList = s.toList ++ '\n' :: '\n' :: t.toList := by
    simp [String.toList_append]
  rw [htext, hn, ← lines_append_lineFeed isUnbroken_nil]
  rfl

/-- The tables of two texts with an empty line between them. -/
theorem ofLines_classify_append (s t : String) :
    Table.ofLines (Line.classify (s ++ "\n\n" ++ t)) =
      Table.ofLines (Line.classify s) ++ Table.ofLines (Line.classify t) := by
  obtain ⟨n, hn⟩ := exists_lines_append s t
  have hempty : ∀ l ∈ List.replicate n ([] : List Char), l = [] ∨ l.head? = some '#' :=
    fun l hl ↦ .inl (List.eq_of_mem_replicate hl)
  have htrim : (lines (s ++ "\n\n" ++ t).toList).map trim =
      (lines s.toList).map trim ++ List.replicate n [] ++ [] :: (lines t.toList).map trim := by
    rw [hn]
    simp
  calc (TableReader.run {} ((lines (s ++ "\n\n" ++ t).toList).map trim)).tables
      = (TableReader.run {} ((lines s.toList).map trim ++ List.replicate n [])).tables ++
          (TableReader.run {} ((lines t.toList).map trim)).tables := by
        rw [htrim, TableReader.tables_run_append_blank]
    _ = (TableReader.run {} ((lines s.toList).map trim)).tables ++
          (TableReader.run {} ((lines t.toList).map trim)).tables := by
        rw [TableReader.tables_run_append hempty]

/-- **A text behind another**, with an empty line between them, is read if both can be read: its
tables come behind those of the other, and its presentation is merged into the other's. -/
theorem ofText_append (hs : ofText s = .ok d) (ht : ofText t = .ok e) :
    ofText (s ++ "\n\n" ++ t) =
      .ok ⟨d.tables ++ e.tables, d.presentation.merge e.presentation⟩ := by
  obtain ⟨hds, hps⟩ := ofText_eq_ok_iff.1 hs
  obtain ⟨het, hpt⟩ := ofText_eq_ok_iff.1 ht
  refine ofText_of_read ?_ ?_
  · rw [ofLines_classify_append, hds, het]
  · obtain ⟨n, hn⟩ := exists_lines_append s t
    have hbehind : Presentation.read (List.replicate n [] ++ [] :: lines t.toList) =
        .ok e.presentation := by
      rw [Presentation.read_replicate_append, ← hpt]
      exact Presentation.read_replicate_append 1 _
    rw [hn, List.append_assoc]
    exact Presentation.read_append hps hbehind

/-- A diagram whose text ends in the middle of a table. -/
def unfinished : Diagram :=
  { tables := [⟨"a", [⟨"x", none, {}, none, none⟩, ⟨"b", none, {}, none, none⟩]⟩]
    presentation := .ofDirectives
      [.position "a" ⟨.int 1, .int 1, none⟩, .color .text "#fff"] }

/-- A diagram whose text starts with dashes. -/
def headless : Diagram :=
  { tables := []
    presentation := .ofDirectives
      [.position "b" ⟨.int 2, .int 2, none⟩, .position "a" ⟨.int 5, .int 5, none⟩,
        .color .text "#eee", .color .tableText "#ddd"] }

theorem ofText_append_headless :
    ofText "a\n-\nx\n# a (1, 1)\n# text-color: #fff\nb" = .ok unfinished ∧
      ofText "-\n# b (2, 2)\n# a (5, 5)\n# text-color: #eee\n# table-text: #ddd" = .ok headless ∧
      ofText ("a\n-\nx\n# a (1, 1)\n# text-color: #fff\nb" ++ "\n\n" ++
          "-\n# b (2, 2)\n# a (5, 5)\n# text-color: #eee\n# table-text: #ddd") =
        .ok ⟨unfinished.tables ++ headless.tables,
          unfinished.presentation.merge headless.presentation⟩ := by
  have hs : ofText "a\n-\nx\n# a (1, 1)\n# text-color: #fff\nb" = .ok unfinished :=
    ofText_of_read (by decide +kernel) (by decide +kernel)
  have ht : ofText "-\n# b (2, 2)\n# a (5, 5)\n# text-color: #eee\n# table-text: #ddd" =
      .ok headless :=
    ofText_of_read (by decide +kernel) (by decide +kernel)
  exact ⟨hs, ht, ofText_append hs ht⟩

example : unfinished.presentation.merge headless.presentation =
    .ofDirectives [.position "a" ⟨.int 5, .int 5, none⟩, .position "b" ⟨.int 2, .int 2, none⟩,
      .color .text "#fff", .color .tableText "#ddd"] := by
  decide +kernel

end Diagram

end ErDiagram
