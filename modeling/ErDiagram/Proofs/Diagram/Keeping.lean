import ErDiagram.Proofs.Diagram.Remarks
import ErDiagram.Proofs.Presentation.Keeping

/-!
# Writing a diagram with any names and colors

A diagram that was put together in memory is written and read without a fault as long as its tables
keep to their own lines (`Table.IsLinewise`) and its coordinates lose nothing
(`Presentation.IsExact`).  Names of positions and colors may be any text: what no line can say is
left out, and everything else is read as it was written (`Diagram.ofText_text_keeps`).  The tables
are those that are read when the presentation is not written at all.

The difficulty is in the names that imitate directives.  A name may contain a line break, and what
stands behind it would be a line of its own.  The writer leaves such a directive out, and every line
that it does write is one line that starts with a number sign.  So no name can reach the tables, or
another setting, and each directive is kept or left out by itself.
-/

set_option autoImplicit false

namespace ErDiagram

open Text

/-- A block behind others adds its lines, with an empty line between them if there are others. -/
theorem exists_separated_concat (bs : List (List (List Char))) (b : List (List Char)) :
    ∃ between, (∀ l ∈ between, l = []) ∧
      separated (bs ++ [b]) = separated bs ++ (between ++ b) := by
  induction bs with
  | nil => exact ⟨[], List.forall_mem_nil _, separated_singleton b⟩
  | cons c bs ih =>
    rcases bs with _ | ⟨c', bs⟩
    · refine ⟨[[]], List.forall_mem_singleton.2 rfl, ?_⟩
      rw [List.singleton_append, separated_cons_cons, separated_singleton, separated_singleton]
      rfl
    · obtain ⟨between, hbetween, hconcat⟩ := ih
      refine ⟨between, hbetween, ?_⟩
      rw [List.cons_append, List.cons_append, separated_cons_cons, separated_cons_cons,
        ← List.cons_append, hconcat, List.append_assoc, List.cons_append]

namespace Diagram

variable {d : Diagram} {lines : List String} {s : String}

/-- The lines for the presentation are no concern of the tables in front of them. -/
theorem ofLines_classify_of_blocks (h : ∀ t ∈ d.tables, t.IsLinewise)
    (hlines : ∀ l ∈ toLists lines, IsRemark l)
    (hs : s.toList = unlines (separated ((d.blocks lines).map toLists))) :
    Table.ofLines (Line.classify s) = Table.ofLines (Line.classify d.tablesText) := by
  have hbare : d.text false = .ok d.tablesText := rfl
  obtain ⟨bare, hnone, htables⟩ := toList_text hbare
  obtain rfl : bare = [] := hnone
  have hempty : ∀ l ∈ toLists [], IsRemark l := List.forall_mem_nil _
  rw [Table.ofLines, Line.classify, hs, lines_unlines_blocks h hlines, Table.ofLines, Line.classify,
    htables, lines_unlines_blocks h hempty, map_toLists_blocks, map_toLists_blocks]
  show (TableReader.run {} _).tables = (TableReader.run {} _).tables
  split
  · rfl
  · -- below the tables stand blank lines and remarks, and neither adds anything to them
    obtain ⟨between, hbetween, hconcat⟩ :=
      exists_separated_concat (d.tables.map (toLists ·.lines)) (toLists lines)
    rw [hconcat, List.map_append]
    refine (TableReader.tables_run_append ?_).trans (by simp)
    refine List.forall_mem_map.2 (List.forall_mem_append.2 ⟨fun l hl ↦ ?_, fun l hl ↦ ?_⟩)
    · rw [hbetween l hl]
      exact .inl rfl
    · rw [(hlines l hl).trimmed.trim_eq]
      exact .inr (hlines l hl).head

/-- **A diagram with any names and colors** is written and read without a fault.  Of its
presentation just that is kept which a line can say, and the tables are those that are read without
it. -/
theorem ofText_text_keeps (htables : ∀ t ∈ d.tables, t.IsLinewise)
    (hpresentation : d.presentation.IsExact) : ∃ s e, d.text true = .ok s ∧ ofText s = .ok e ∧
      d.presentation.Keeps e.presentation ∧
      e.tables = Table.ofLines (Line.classify d.tablesText) := by
  have hexact : ∀ e ∈ d.presentation.directives d.names, e.IsExact :=
    fun e he ↦ hpresentation.of_mem_directives he
  obtain ⟨rs, ds, hrs, hdenotes, hds, hkept⟩ := Presentation.exists_kept hexact
  have hpresent : d.presentationLines = .ok (rs.filterMap id) := bind_eq_ok_iff.2 ⟨rs, hrs, rfl⟩
  obtain ⟨s, hs⟩ : ∃ s, d.text true = .ok s := ⟨_, bind_eq_ok_iff.2 ⟨_, hpresent, rfl⟩⟩
  obtain ⟨lines, hlines, htext⟩ := toList_text hs
  obtain rfl := Except.ok.inj (hpresent.symm.trans hlines)
  have hremarks := Directive.isRemark_of_denotes hdenotes
  have hread : Presentation.read (Text.lines s.toList) = .ok (.ofDirectives ds) := by
    rw [htext, lines_unlines_blocks htables hremarks, Presentation.read, collect_blocks htables]
    exact congrArg (Except.map _) hds
  exact ⟨s, _, hs, ofText_of_read rfl hread, Presentation.keeps_of_get? hkept,
    ofLines_classify_of_blocks htables hremarks htext⟩

/-- A diagram whose names and colors imitate directives. -/
def hostile : Diagram :=
  { tables := [⟨"a", [⟨"b", some "c", {}, none, some "# d "⟩]⟩]
    presentation :=
      { view := some ⟨.int (-120), .int 40⟩
        textBackground := some "#fff"
        text := some "#eee\n# zoom: 2.000"
        positions :=
          { entries :=
              [("b (0, 0)\n# view: (9, 9)", ⟨.int 3, .int 4, none⟩), ("a", ⟨.int 1, .int 2, some ""⟩),
                ("post", ⟨.int 5, .int 6, some "#abc)\n# a (7, 8"⟩)]
            nodup := by decide } } }

theorem ofText_text_keeps_hostile :
    (∀ t ∈ hostile.tables, t.IsLinewise) ∧ hostile.presentation.IsExact ∧
      ∃ s e, hostile.text true = .ok s ∧ ofText s = .ok e ∧
        hostile.presentation.Keeps e.presentation ∧
        e.tables = Table.ofLines (Line.classify hostile.tablesText) := by
  have hfield : Field.IsLinewise ⟨"b", some "c", {}, none, some "# d "⟩ := by
    refine ⟨⟨by decide, .nil⟩, ?_, ?_, by simp⟩
    · rintro t ⟨⟩
      exact isUnbroken_of_any (by decide)
    · rintro v ⟨⟩
      exact isUnbroken_of_any (by decide)
  have htables : ∀ t ∈ hostile.tables, t.IsLinewise :=
    List.forall_mem_singleton.2 ⟨⟨isLine_of_any (by decide) (by decide), by decide,
      'a', by decide, by decide⟩, List.forall_mem_singleton.2 hfield⟩
  have hexact {k : Int} (hk : k.natAbs ≤ 2 ^ 53) : (Number.int k).IsExact := ⟨k, .int k, hk⟩
  have hpresentation : hostile.presentation.IsExact := by
    refine ⟨rfl, ?_, ?_⟩
    · rintro v ⟨⟩
      exact ⟨hexact (by decide), hexact (by decide)⟩
    · refine List.forall_mem_cons.2 ⟨⟨hexact (by decide), hexact (by decide)⟩,
        List.forall_mem_cons.2 ⟨⟨hexact (by decide), hexact (by decide)⟩,
          List.forall_mem_singleton.2 ⟨hexact (by decide), hexact (by decide)⟩⟩⟩
  exact ⟨htables, hpresentation, ofText_text_keeps htables hpresentation⟩

example : hostile.text true =
    .ok "a\n-\nb c default # d \n\n# view: (-120, 40)\n# text-bg: #fff\n# a (1, 2)\n" := by
  decide +kernel

end Diagram

end ErDiagram
