import Mathlib.Data.List.TakeWhile
import ErDiagram.Proofs.Result
import ErDiagram.Proofs.Text.Lines
import ErDiagram.Selection

/-!
# The text form of a selection

A selection is written as one column on each line.  Its columns are read back if all of them are
*plain* (`Column.IsPlain`), and if they are not, they are not: whatever can be read off a text is
plain (`Column.isPlain_of_ofText`).  A text names no columns just in case some line that is not
blank is malformed (`Column.isMalformed`), and the first such line says why
(`Selection.columnsOfText_eq_error_iff`).

The two halves meet in the notion of a plain column, which is said by the characters of its two
names and not by the reader: what is plain is read again (`Column.ofText_text`), and what is read is
plain.  Everything else about a text is a matter of lines, where it is used that the text of a plain
column is one line and is not blank.
-/

set_option autoImplicit false

namespace ErDiagram

open Text

/-! ## One column

A line is divided at its first point after the blanks around it were taken off.  Hence the name of
the table may have no point and no blank in front, the name of the field no blank at the end, and
neither may be empty; blanks and points elsewhere are parts of the names. -/

/-- A column that the line it is written as names. -/
structure Column.IsPlain (c : Column) : Prop where
  /-- The table has a name. -/
  table_ne : c.table ≠ ""
  /-- The name of the table has no point. -/
  point : '.' ∉ c.table.toList
  /-- The name of the table does not start with a blank. -/
  table_start : ∀ a ∈ c.table.toList.head?, isBlank a = false
  /-- The field has a name. -/
  field_ne : c.field ≠ ""
  /-- The name of the field does not end with a blank. -/
  field_end : ∀ a ∈ c.field.toList.getLast?, isBlank a = false
  /-- No line break stands in the name of the table. -/
  table_unbroken : IsUnbroken c.table.toList
  /-- No line break stands in the name of the field. -/
  field_unbroken : IsUnbroken c.field.toList

/-- Whether a line names no column.  Without the blanks around it, it has no point, or the first
point is its first or its last character. -/
def Column.isMalformed (line : List Char) : Bool :=
  match (trim line).idxOf? '.' with
  | none => true
  | some i => i = 0 || i + 1 = (trim line).length

namespace Column

variable {c : Column} {s : String}

theorem toList_text (c : Column) : c.text.toList = c.table.toList ++ '.' :: c.field.toList := by
  rw [text, String.toList_append, String.toList_append, List.append_assoc]
  rfl

/-- A line with a point names what stands in front of the first and what stands behind it. -/
theorem ofText_of_trim {table field : List Char} (h : trim s.toList = table ++ '.' :: field)
    (hpoint : '.' ∉ table) : ofText s =
      if table.isEmpty || field.isEmpty then .error (.malformedColumn s)
      else .ok ⟨String.ofList table, String.ofList field⟩ := by
  have htable : ∀ a ∈ table, decide (a ≠ '.') = true := fun a ha ↦
    decide_eq_true fun hdot : a = '.' ↦ hpoint (hdot ▸ ha)
  have hfield : ∀ a ∈ ('.' :: field).head?, decide (a ≠ '.') = false := by simp
  rw [ofText, h, takeWhile_run htable hfield, dropWhile_run htable hfield]
  rfl

theorem isMalformed_of_trim {line table field : List Char}
    (h : trim line = table ++ '.' :: field) (hpoint : '.' ∉ table) :
    isMalformed line = (table.isEmpty || field.isEmpty) := by
  have hindex : (table ++ '.' :: field).idxOf? '.' = some table.length := by
    rw [List.idxOf?, List.findIdx?_append, List.findIdx?_eq_none_iff.2]
    · simp [List.findIdx?_cons]
    · intro a ha
      exact beq_eq_false_iff_ne.2 fun hdot ↦ hpoint (hdot ▸ ha)
  rw [isMalformed, h, hindex]
  cases table <;> cases field <;> simp

/-- A line without a point names no column. -/
theorem ofText_of_notMem (h : '.' ∉ trim s.toList) : ofText s = .error (.malformedColumn s) := by
  have hrun : ∀ a ∈ trim s.toList, decide (a ≠ '.') = true := fun a ha ↦
    decide_eq_true fun hdot : a = '.' ↦ h (hdot ▸ ha)
  have hnil : (trim s.toList).dropWhile (· ≠ '.') = [] := List.dropWhile_eq_nil_iff.2 hrun
  rw [ofText, hnil]
  simp

/-- **A line names no column** just in case it is malformed. -/
theorem ofText_eq_error_iff {e : Error} :
    ofText s = .error e ↔ isMalformed s.toList = true ∧ e = .malformedColumn s := by
  by_cases hmem : '.' ∈ trim s.toList
  · obtain ⟨table, field, hsplit, hpoint⟩ := List.eq_append_cons_of_mem hmem
    rw [ofText_of_trim hsplit hpoint, isMalformed_of_trim hsplit hpoint]
    split
    · next h => simp [h, eq_comm]
    · next h => simp [h]
  · rw [ofText_of_notMem hmem, isMalformed, List.idxOf?_eq_none_iff.2 hmem]
    simp [eq_comm]

/-- **A line names a column** just in case, without the blanks around it, it is the column as
text. -/
theorem ofText_eq_ok_iff : ofText s = .ok c ↔
    trim s.toList = c.text.toList ∧ '.' ∉ c.table.toList ∧ c.table ≠ "" ∧ c.field ≠ "" := by
  constructor
  · intro h
    by_cases hmem : '.' ∈ trim s.toList
    · obtain ⟨table, field, hsplit, hpoint⟩ := List.eq_append_cons_of_mem hmem
      rw [ofText_of_trim hsplit hpoint] at h
      split at h
      · cases h
      · next hne =>
        obtain rfl := Except.ok.inj h
        rw [Bool.or_eq_true, not_or, List.isEmpty_iff, List.isEmpty_iff] at hne
        rw [toList_text, String.toList_ofList, String.toList_ofList, Ne, Ne,
          String.ofList_eq_empty_iff, String.ofList_eq_empty_iff]
        exact ⟨hsplit, hpoint, hne⟩
    · rw [ofText_of_notMem hmem] at h
      cases h
  · rintro ⟨htext, hpoint, htable, hfield⟩
    rw [toList_text] at htext
    have hne : ¬(c.table.toList.isEmpty || c.field.toList.isEmpty) = true := by
      simp [htable, hfield]
    rw [ofText_of_trim htext hpoint, if_neg hne, String.ofList_toList, String.ofList_toList]

/-! ### Plain columns

The conditions for a plain column are those under which its line survives trimming and dividing, and
under which it is one line.  They are not only enough: reading gives nothing else. -/

theorem isTrimmed_text (h : c.IsPlain) : IsTrimmed c.text.toList := by
  have htable : c.table.toList ≠ [] := String.toList_eq_nil_iff.not.2 h.table_ne
  have hfield : c.field.toList ≠ [] := String.toList_eq_nil_iff.not.2 h.field_ne
  rw [toList_text]
  refine ⟨fun a ha ↦ h.table_start a ?_, fun a ha ↦ h.field_end a ?_⟩
  · rwa [List.head?_append_of_ne_nil _ htable] at ha
  · rwa [List.append_cons, List.getLast?_append_of_ne_nil _ hfield] at ha

/-- The line for a plain column names it. -/
theorem ofText_text (h : c.IsPlain) : ofText c.text = .ok c :=
  ofText_eq_ok_iff.2 ⟨(isTrimmed_text h).trim_eq, h.point, h.table_ne, h.field_ne⟩

theorem isBlankText_text (h : c.IsPlain) : (!isBlankText c.text.toList) = true := by
  obtain ⟨a, as, ha⟩ := List.exists_cons_of_ne_nil (String.toList_eq_nil_iff.not.2 h.table_ne)
  have hstart := h.table_start a (by rw [ha]; rfl)
  rw [toList_text, ha]
  simp [isBlankText, hstart]

theorem isUnbroken_text (h : c.IsPlain) : IsUnbroken c.text.toList := by
  rw [toList_text]
  exact h.table_unbroken.append (List.forall_mem_cons.2 ⟨by decide, h.field_unbroken⟩)

/-- **A column that a line names is plain.** -/
theorem isPlain_of_ofText (h : ofText s = .ok c) (hs : IsUnbroken s.toList) : c.IsPlain := by
  obtain ⟨htext, hpoint, htable, hfield⟩ := ofText_eq_ok_iff.1 h
  have hunbroken := hs.of_sublist (trim_sublist s.toList)
  obtain ⟨hstart, hend⟩ := isTrimmed_trim s.toList
  rw [htext, toList_text] at hunbroken hstart hend
  have htable' : c.table.toList ≠ [] := String.toList_eq_nil_iff.not.2 htable
  have hfield' : c.field.toList ≠ [] := String.toList_eq_nil_iff.not.2 hfield
  rw [List.head?_append_of_ne_nil _ htable'] at hstart
  rw [List.append_cons, List.getLast?_append_of_ne_nil _ hfield'] at hend
  exact ⟨htable, hpoint, hstart, hfield, hend, hunbroken.of_append_left,
    hunbroken.of_append_right.of_cons⟩

end Column

/-! ## Columns line by line

A text is read line by line up to the first line that names no column.  Lines of blanks are passed
over, so they can neither fail nor add a column. -/

namespace Selection

variable {columns : List Column} {tables : List Table} {t : String} {e : Error}

theorem toList_text (s : Selection) : s.text.toList = unlines (s.columns.map (·.text.toList)) := by
  rw [text, String.toList_join, unlines, List.flatMap_map, List.flatMap_map]
  exact congrArg (List.flatMap · _) (funext fun c ↦ String.toList_append)

/-- Plain columns are read back. -/
theorem columnsOfText_text (h : ∀ c ∈ columns, c.IsPlain) :
    columnsOfText (text ⟨tables, columns⟩) = .ok columns := by
  have hunbroken : ∀ l ∈ columns.map (·.text.toList), IsUnbroken l :=
    List.forall_mem_map.2 fun c hc ↦ Column.isUnbroken_text (h c hc)
  have hfilter : (columns.map (·.text.toList)).filter (!isBlankText ·) =
      columns.map (·.text.toList) := by
    refine List.filter_eq_self.2 (List.forall_mem_map.2 fun c hc ↦ ?_)
    exact Column.isBlankText_text (h c hc)
  rw [columnsOfText, toList_text, lines_unlines hunbroken, hfilter, mapM_eq_ok_iff,
    List.forall₂_map_left_iff, List.forall₂_same]
  intro c hc
  rw [String.ofList_toList]
  exact Column.ofText_text (h c hc)

/-- What is read off a text is plain. -/
theorem isPlain_of_columnsOfText (h : columnsOfText t = .ok columns) :
    ∀ c ∈ columns, c.IsPlain := by
  intro c hc
  obtain ⟨l, hl, hname⟩ := exists_of_mem_mapM h hc
  refine Column.isPlain_of_ofText hname ?_
  rw [String.toList_ofList]
  exact isUnbroken_of_mem_lines (List.mem_of_mem_filter hl)

/-- **A text names no columns** if one of its lines is neither blank nor names a column, and the
first such line is what is reported. -/
theorem columnsOfText_eq_error_iff : columnsOfText t = .error e ↔
    ∃ l, ((lines t.toList).filter (!isBlankText ·)).find? Column.isMalformed = some l ∧
      e = .malformedColumn (String.ofList l) := by
  refine mapM_eq_error_iff_find? fun l e ↦ ?_
  rw [Column.ofText_eq_error_iff, String.toList_ofList]

/-- **The text form is faithful.**  Columns are read back from their text just in case all of them
are plain.  A text names no columns just in case some line that is not blank is malformed: without
the blanks around it, it has no point, or the first point stands at one of its ends; the first such
line is reported.  Whatever columns a text names are plain, so that they are read back. -/
theorem textForm_faithful (tables : List Table) :
    (∀ columns, columnsOfText (text ⟨tables, columns⟩) = .ok columns ↔ ∀ c ∈ columns, c.IsPlain) ∧
    (∀ t, (∃ e, columnsOfText t = .error e) ↔
      ∃ l ∈ lines t.toList, isBlankText l = false ∧ Column.isMalformed l = true) ∧
    (∀ t e, columnsOfText t = .error e ↔
      ∃ l, ((lines t.toList).filter (!isBlankText ·)).find? Column.isMalformed = some l ∧
        e = .malformedColumn (String.ofList l)) ∧
    ∀ t columns, columnsOfText t = .ok columns →
      (∀ c ∈ columns, c.IsPlain) ∧ columnsOfText (text ⟨tables, columns⟩) = .ok columns := by
  refine ⟨fun columns ↦ ⟨isPlain_of_columnsOfText, columnsOfText_text⟩, fun t ↦ ?_,
    fun t e ↦ columnsOfText_eq_error_iff, fun t columns h ↦ ?_⟩
  · have hreported : (∃ e, columnsOfText t = .error e) ↔
        (((lines t.toList).filter (!isBlankText ·)).find? Column.isMalformed).isSome = true := by
      rw [Option.isSome_iff_exists]
      simp only [columnsOfText_eq_error_iff]
      exact ⟨fun ⟨_, l, hl, _⟩ ↦ ⟨l, hl⟩, fun ⟨l, hl⟩ ↦ ⟨_, l, hl, rfl⟩⟩
    rw [hreported, List.find?_isSome]
    simp only [List.mem_filter, Bool.not_eq_true', and_assoc]
  · have hplain := isPlain_of_columnsOfText h
    exact ⟨hplain, columnsOfText_text hplain⟩

/-- Blanks around the names are kept but at the ends of the line, and so are all points but the
first. -/
theorem textForm_faithful_spaced :
    columnsOfText "  user . id\n\n a..b\r\n" = .ok [⟨"user ", " id"⟩, ⟨"a", ".b"⟩] ∧
      (∀ c ∈ [Column.mk "user " " id", ⟨"a", ".b"⟩], c.IsPlain) ∧
      columnsOfText (text ⟨[], [⟨"user ", " id"⟩, ⟨"a", ".b"⟩]⟩) =
        .ok [⟨"user ", " id"⟩, ⟨"a", ".b"⟩] := by
  have hread : columnsOfText "  user . id\n\n a..b\r\n" =
      .ok [⟨"user ", " id"⟩, ⟨"a", ".b"⟩] := by decide +kernel
  exact ⟨hread, (textForm_faithful []).2.2.2 _ _ hread⟩

end Selection

end ErDiagram
