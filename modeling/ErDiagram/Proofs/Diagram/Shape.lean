import ErDiagram.Proofs.Diagram.RoundTrip
import ErDiagram.Proofs.FieldLine.Declaration

/-!
# The shape of the tables that are read

The tables of a diagram that is read are declarable, whatever the text, and any declarable tables
are those of some text (`Diagram.exists_ofText_tables_iff`).  So `Table.Declarable` says all there
is to say about the tables of a text: no condition relates one table of a diagram to another, or
one field of a table to another.

One direction is an invariant of the reader.  For the other one a text has to be found: each field
has a line that declares it, the name of the table stands above a line of dashes, and an empty line
keeps the tables apart.  Such a text is not the canonical one, since that would lose what a field
line can only say in another way.
-/

set_option autoImplicit false

namespace ErDiagram

open Text

/-- Lines that declare given fields, one each. -/
theorem Field.exists_lines {fs : List Field} (h : ∀ f ∈ fs, f.Declarable) :
    ∃ ls : List (List Char), (∀ l ∈ ls, IsHeader l) ∧ ls.filterMap ofText? = fs := by
  induction fs with
  | nil => exact ⟨[], List.forall_mem_nil _, rfl⟩
  | cons f fs ih =>
    obtain ⟨hf, hfs⟩ := List.forall_mem_cons.1 h
    obtain ⟨ls, hls, hread⟩ := ih hfs
    obtain ⟨l, hl, hhead, hlread⟩ := hf.exists_line
    refine ⟨l :: ls, List.forall_mem_cons.2 ⟨isHeader_of_head hl hhead, hls⟩, ?_⟩
    rw [List.filterMap_cons_some hlread, hread]

/-- A line of a text without blanks around it and without presentation. -/
structure IsPlain (l : List Char) : Prop where
  /-- There is no blank at either end. -/
  trimmed : IsTrimmed l
  /-- There is no line break inside. -/
  unbroken : IsUnbroken l
  /-- It starts with no number sign. -/
  head : l.head? ≠ some '#'

theorem IsHeader.isPlain {l : List Char} (h : IsHeader l) : IsPlain l :=
  ⟨h.trimmed, h.unbroken, h.head⟩

theorem isPlain_nil : IsPlain [] := ⟨by simp [IsTrimmed], isUnbroken_nil, by simp⟩

theorem Table.isPlain_underline {t : Table} (h : t.name.toList ≠ []) :
    IsPlain t.underline.toList := by
  refine ⟨(isLine_underline h).trimmed, (isLine_underline h).unbroken, fun hhash ↦ ?_⟩
  have hdashes := baseKind_underline h
  rcases Line.baseKind_of_head hhash with hkind | hkind <;> rw [hkind] at hdashes <;> cases hdashes

/-- Lines that declare given tables, with an empty line below each of them. -/
theorem TableReader.exists_lines {ts : List Table} (h : ∀ t ∈ ts, t.Declarable) :
    ∃ ls, (∀ l ∈ ls, IsPlain l) ∧ ∀ r : TableReader, (r.run ls).tables = r.tables ++ ts := by
  induction ts with
  | nil => exact ⟨[], List.forall_mem_nil _, fun r ↦ (List.append_nil _).symm⟩
  | cons t ts ih =>
    obtain ⟨ht, hts⟩ := List.forall_mem_cons.1 h
    obtain ⟨rest, hrest, hrun⟩ := ih hts
    obtain ⟨ls, hls, hread⟩ := Field.exists_lines ht.fields
    refine ⟨t.name.toList :: t.underline.toList :: (ls ++ [] :: rest), ?_, fun r ↦ ?_⟩
    · have hbelow : ∀ l ∈ ls ++ [] :: rest, IsPlain l := List.forall_mem_append.2
        ⟨fun l hl ↦ (hls l hl).isPlain, List.forall_mem_cons.2 ⟨isPlain_nil, hrest⟩⟩
      exact List.forall_mem_cons.2 ⟨ht.name.isPlain,
        List.forall_mem_cons.2 ⟨Table.isPlain_underline ht.name.ne_nil, hbelow⟩⟩
    · have hdashes := Table.baseKind_underline ht.name.ne_nil
      rw [run_header ht.name hdashes hls (by simp [Line.baseKind]), run_blank, hrun, hread,
        String.ofList_toList]
      simp [tables]

/-- **Tables are read from some text just in case they are declarable.** -/
theorem Diagram.exists_ofText_tables_iff (ts : List Table) :
    (∃ text d, ofText text = .ok d ∧ d.tables = ts) ↔ ∀ t ∈ ts, t.Declarable := by
  constructor
  · rintro ⟨text, d, h, rfl⟩
    rw [← (ofText_eq_ok_iff.1 h).1]
    exact Table.declarable_of_mem_ofLines
  · intro h
    obtain ⟨ls, hls, hrun⟩ := TableReader.exists_lines h
    have hlines : Text.lines (String.ofList (unlines ls)).toList = ls := by
      rw [String.toList_ofList]
      exact lines_unlines fun l hl ↦ (hls l hl).unbroken
    have htrim : ls.map trim = ls :=
      (List.map_congr_left fun l hl ↦ (hls l hl).trimmed.trim_eq).trans (List.map_id _)
    have htables : Table.ofLines (Line.classify (String.ofList (unlines ls))) = ts := by
      rw [Table.ofLines, Line.classify, hlines, htrim]
      exact (hrun {}).trans (List.nil_append _)
    -- the lines hold no remark, so no directive is read from them
    have hidle : ∀ l ∈ ls, (trim l).head? ≠ some '#' := fun l hl ↦
      (hls l hl).trimmed.trim_eq.symm ▸ (hls l hl).head
    have hread : Presentation.read (Text.lines (String.ofList (unlines ls)).toList) =
        .ok (.ofDirectives []) := by
      rw [hlines, Presentation.read, Directive.collect, ← List.append_nil ls,
        Directive.foldlM_collectLine_of_idle hidle]
      rfl
    exact ⟨_, _, ofText_of_read htables hread, rfl⟩

end ErDiagram
