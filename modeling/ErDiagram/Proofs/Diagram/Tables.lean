import ErDiagram.Proofs.Diagram.Blocks

/-!
# Reading tables off a canonical text

The reader takes the blocks of a canonical text apart again.  What it finds are the tables with each
of their field lines read on its own (`Diagram.ofLines_classify`), whatever the lines for the
presentation.  For that a table need only be `Table.Declarable`: its name stands alone on a line,
and its fields are declarable.  Whatever text a table was read from, it is
(`Table.declarable_of_mem_ofLines`).
-/

set_option autoImplicit false

namespace ErDiagram

open Text

/-! ## The shape of a table

Three conditions on tables, from the strongest to the weakest.  A well-formed table is read back
from its own lines; a declarable one is read from some lines; and of a linewise one no more is known
than that its name and its fields do not run over into other lines. -/

/-- A text line that dashes below make a header. -/
structure IsHeader (l : List Char) : Prop extends IsLine l where
  /-- It is not a comment. -/
  head : l.head? ≠ some '#'
  /-- It is not made of dashes only. -/
  ne_dashes : ∃ c ∈ l, c ≠ '-'

/-- A table that its own lines can declare. -/
structure Table.WellFormed (t : Table) : Prop where
  /-- The name can stand in a header. -/
  name : IsHeader t.name.toList
  /-- The fields can be declared by their lines. -/
  fields : ∀ f ∈ t.fields, f.WellFormed

/-- A table that some lines can declare. -/
structure Table.Declarable (t : Table) : Prop where
  /-- The name can stand in a header. -/
  name : IsHeader t.name.toList
  /-- Some line can declare each field. -/
  fields : ∀ f ∈ t.fields, f.Declarable

/-- A table whose name and whose fields each stand on a line of their own. -/
structure Table.IsLinewise (t : Table) : Prop where
  /-- The name can stand in a header. -/
  name : IsHeader t.name.toList
  /-- Each field stands on a line. -/
  fields : ∀ f ∈ t.fields, f.IsLinewise

theorem Table.WellFormed.declarable {t : Table} (h : t.WellFormed) : t.Declarable :=
  ⟨h.name, fun f hf ↦ (h.fields f hf).declarable⟩

theorem Table.Declarable.isLinewise {t : Table} (h : t.Declarable) : t.IsLinewise :=
  ⟨h.name, fun f hf ↦ (h.fields f hf).isLinewise⟩

/-- A table with each of its field lines read on its own. -/
def Table.reread (t : Table) : Table :=
  { t with fields := t.fields.filterMap fun f ↦ Field.ofText? f.text.toList }

theorem filterMap_eq_self_iff {α : Type} {p : α → Option α} {l : List α}
    (h : ∀ a ∈ l, ∃ b, p a = some b) : l.filterMap p = l ↔ ∀ a ∈ l, p a = some a := by
  induction l with
  | nil => simp
  | cons a l ih =>
    obtain ⟨⟨b, hb⟩, hl⟩ := List.forall_mem_cons.1 h
    rw [List.filterMap_cons, List.forall_mem_cons, ← ih hl, hb]
    simp

theorem Table.Declarable.reread_eq_self_iff {t : Table} (h : t.Declarable) :
    t.reread = t ↔ ∀ f ∈ t.fields, f.Restorable := by
  have hread : ∀ f ∈ t.fields, ∃ g, Field.ofText? f.text.toList = some g := by
    intro f hf
    obtain ⟨_, _, htext⟩ := (h.fields f hf).ofText?_text
    exact ⟨_, htext⟩
  have hfields : t.reread = t ↔ t.reread.fields = t.fields := by
    obtain ⟨name, fields⟩ := t
    simp [reread]
  rw [hfields, reread, filterMap_eq_self_iff hread]
  exact forall₂_congr fun f hf ↦ (h.fields f hf).ofText?_text_iff

theorem map_reread_eq_self_iff {ts : List Table} (h : ∀ t ∈ ts, t.Declarable) :
    ts.map Table.reread = ts ↔ ∀ t ∈ ts, ∀ f ∈ t.fields, f.Restorable := by
  induction ts with
  | nil => simp
  | cons t ts ih =>
    obtain ⟨ht, hts⟩ := List.forall_mem_cons.1 h
    rw [List.map_cons, List.cons_eq_cons, List.forall_mem_cons, ih hts, ht.reread_eq_self_iff]

/-! ## Kinds of lines

What the spelling of a line says about its kind.  A name and a field line start with something other
than a number sign and have a character other than a dash, hence they are text lines, and headers
where dashes stand below. -/

theorem Line.baseKind_eq_text {l : List Char} (h : IsHeader l) : baseKind l = .text := by
  obtain ⟨c, hc, hne⟩ := h.ne_dashes
  have hall : l.all (· == '-') = false := by
    rw [List.all_eq_false]
    exact ⟨c, hc, by simpa using hne⟩
  rw [baseKind, if_neg (by simpa using h.ne_nil), if_neg h.head, hall]
  rfl

theorem Line.isHeader_of_baseKind {l : List Char} (h : baseKind l = .text) (ht : IsTrimmed l)
    (hu : IsUnbroken l) : IsHeader l := by
  rw [baseKind] at h
  split at h
  · cases h
  next hempty =>
  split at h
  · split at h <;> cases h
  next hhash =>
  split at h
  · cases h
  next hdashes =>
  rw [Bool.not_eq_true, List.all_eq_false] at hdashes
  obtain ⟨c, hc, hne⟩ := hdashes
  exact ⟨⟨by simpa using hempty, ht, hu⟩, hhash, c, hc, by simpa using hne⟩

theorem Line.isHeader_of_kindAbove {l : List Char} {below : Option (List Char)}
    (h : kindAbove l below = .header) (ht : IsTrimmed l) (hu : IsUnbroken l) : IsHeader l := by
  rw [kindAbove] at h
  split at h
  · next hkinds => exact isHeader_of_baseKind hkinds.1 ht hu
  · rw [baseKind] at h
    repeat' split at h
    all_goals cases h

/-- A line that starts with a number sign is no concern of tables. -/
theorem Line.baseKind_of_head {l : List Char} (h : l.head? = some '#') :
    baseKind l = .directive ∨ baseKind l = .comment := by
  have hne : l.isEmpty = false := by cases l <;> first | rfl | cases h
  rw [baseKind, hne, if_neg Bool.false_ne_true, if_pos h]
  split
  · exact .inl rfl
  · exact .inr rfl

theorem Table.baseKind_underline {t : Table} (h : t.name.toList ≠ []) :
    Line.baseKind t.underline.toList = .dashes := by
  have hlength : t.name.length ≠ 0 := by
    rw [← String.length_toList]
    simpa using h
  obtain ⟨n, hn⟩ := Nat.exists_eq_succ_of_ne_zero hlength
  rw [underline, String.toList_ofList, hn, List.replicate_succ, Line.baseKind]
  simp

/-- A line that starts like a name can stand in a header. -/
theorem isHeader_of_head {l : List Char} (h : IsLine l)
    (hhead : ∃ c ∈ l.head?, Lexeme.isNameStart c = true) : IsHeader l := by
  obtain ⟨c, hc, hstart⟩ := hhead
  refine ⟨h, fun hhash ↦ ?_, c, List.mem_of_head? hc, ?_⟩
  · obtain rfl := Option.some.inj (hc.symm.trans hhash)
    exact absurd hstart (by decide)
  · rintro rfl
    exact absurd hstart (by decide)

theorem Field.Declarable.isHeader_text {f : Field} (h : f.Declarable) :
    IsHeader f.text.toList := isHeader_of_head h.isLine_text (Field.head?_text h.name)

theorem Lexeme.IsName.isHeader {w : List Char} (h : Lexeme.IsName w) : IsHeader w := by
  refine isHeader_of_head h.isLine ?_
  cases w with
  | nil => exact h.elim
  | cons c w => exact ⟨c, rfl, h.1⟩

/-! ## Running the reader

The reader is run line by line over lists of lines, starting in any state.  Each lemma takes one
construct off the front: an empty line, a line that starts with a number sign, the text lines below
a header, a table.  The line behind a construct must not be one of dashes, or the last text line
would be a header. -/

namespace TableReader

/-- The reader after lines that have no blanks around them. -/
def run (r : TableReader) (ls : List (List Char)) : TableReader :=
  (Line.classifyFrom 0 ls).foldl add r

/-- The reader does not look at the numbers of lines. -/
theorem foldl_classifyFrom (n : Nat) (r : TableReader) (ls : List (List Char)) :
    (Line.classifyFrom n ls).foldl add r = r.run ls := by
  rw [run]
  generalize 0 = m
  induction ls generalizing n m r with
  | nil => rfl
  | cons l ls ih => exact ih (n + 1) _ (m + 1)

variable {r : TableReader} {l : List Char} {rest : List (List Char)}

theorem run_cons (r : TableReader) (l : List Char) (rest : List (List Char)) :
    r.run (l :: rest) = (r.add ⟨Line.kindAbove l rest.head?, l, 0⟩).run rest :=
  foldl_classifyFrom 1 _ rest

theorem run_blank (r : TableReader) (rest : List (List Char)) :
    r.run ([] :: rest) = (⟨r.tables, none⟩ : TableReader).run rest := by
  rw [run_cons]
  rfl

/-- A line of the presentation changes nothing. -/
theorem run_cons_of_head (h : l.head? = some '#') : r.run (l :: rest) = r.run rest := by
  have hkind : Line.kindAbove l rest.head? = Line.baseKind l := by
    refine if_neg ?_
    intro ht
    rcases Line.baseKind_of_head h with hk | hk <;> rw [hk] at ht <;> cases ht.1
  rw [run_cons, hkind, add.eq_def]
  rcases Line.baseKind_of_head h with hk | hk <;> simp only [hk]

theorem run_of_head {ls : List (List Char)} (h : ∀ l ∈ ls, l.head? = some '#') :
    r.run ls = r := by
  induction ls with
  | nil => rfl
  | cons l ls ih =>
    obtain ⟨hl, hls⟩ := List.forall_mem_cons.1 h
    rw [run_cons_of_head hl, ih hls]

/-! ### Whole tables

A header opens a table, the text lines below it are read one after the other, and what stands behind
them only must not turn the last one into a header. -/

/-- The text lines below the header of a table. -/
theorem run_texts {closed : List Table} {t : Table} {ls : List (List Char)}
    (h : ∀ l ∈ ls, IsHeader l) (hrest : rest.head?.map Line.baseKind ≠ some .dashes) :
    run ⟨closed, some t⟩ (ls ++ rest) =
      run ⟨closed, some { t with fields := t.fields ++ ls.filterMap Field.ofText? }⟩ rest := by
  induction ls generalizing t with
  | nil => simp
  | cons l ls ih =>
    obtain ⟨hl, hls⟩ := List.forall_mem_cons.1 h
    -- no dashes stand below the line, so it is a field and no header
    have hbelow : (ls ++ rest).head?.map Line.baseKind ≠ some .dashes := by
      cases ls with
      | nil => exact hrest
      | cons m ls =>
        have hm := Line.baseKind_eq_text (hls m List.mem_cons_self)
        simp [hm]
    have hkind : Line.kindAbove l (ls ++ rest).head? = .text :=
      (if_neg fun ht ↦ hbelow ht.2).trans (Line.baseKind_eq_text hl)
    rw [List.cons_append, run_cons, hkind, add, List.filterMap_cons]
    cases Field.ofText? l with
    | none => exact ih hls
    | some f =>
      simp only
      rw [ih hls, List.append_assoc]
      rfl

/-- A header with dashes below it, and text lines below these. -/
theorem run_header {name dashes : List Char} (hname : IsHeader name)
    (hdashes : Line.baseKind dashes = .dashes) {ls : List (List Char)} (h : ∀ l ∈ ls, IsHeader l)
    (hrest : rest.head?.map Line.baseKind ≠ some .dashes) :
    r.run (name :: dashes :: (ls ++ rest)) =
      run ⟨r.tables, some ⟨String.ofList name, ls.filterMap Field.ofText?⟩⟩ rest := by
  have hheader : Line.kindAbove name (some dashes) = .header :=
    if_pos ⟨Line.baseKind_eq_text hname, by rw [Option.map_some, hdashes]⟩
  have hunderline (below : Option (List Char)) : Line.kindAbove dashes below = .dashes := by
    refine (if_neg fun ht ↦ ?_).trans hdashes
    rw [hdashes] at ht
    cases ht.1
  rw [run_cons, List.head?_cons, hheader, run_cons, hunderline]
  exact run_texts h hrest

/-- The lines of a table. -/
theorem run_table {t : Table} (h : t.Declarable)
    (hrest : rest.head?.map Line.baseKind ≠ some .dashes) :
    r.run (toLists t.lines ++ rest) = run ⟨r.tables, some t.reread⟩ rest := by
  have hlines : toLists t.lines = t.name.toList :: t.underline.toList ::
      t.fields.map (·.text.toList) := by
    rw [toLists, Table.lines, List.map_cons, List.map_cons, List.map_map]
    rfl
  have hfields : ∀ l ∈ t.fields.map (·.text.toList), IsHeader l :=
    List.forall_mem_map.2 fun f hf ↦ (h.fields f hf).isHeader_text
  rw [hlines, List.cons_append, List.cons_append,
    run_header h.name (Table.baseKind_underline h.name.ne_nil) hfields hrest, List.filterMap_map,
    String.ofList_toList]
  rfl

/-- Blocks of tables, with a block behind them that changes nothing or none. -/
theorem tables_run_separated {ts : List Table} (h : ∀ t ∈ ts, t.Declarable)
    {bs : List (List (List Char))} (hbs : bs.length ≤ 1)
    (hhash : ∀ b ∈ bs, ∀ l ∈ b, l.head? = some '#') (r : TableReader) :
    (r.run (separated (ts.map (toLists ·.lines) ++ bs))).tables =
      r.tables ++ ts.map Table.reread := by
  induction ts generalizing r with
  | nil =>
    rcases bs with _ | ⟨b, _ | ⟨c, bs⟩⟩
    · exact (List.append_nil _).symm
    · rw [List.map_nil, List.nil_append, separated_singleton,
        run_of_head (List.forall_mem_singleton.1 hhash)]
      exact (List.append_nil _).symm
    · simp at hbs
  | cons t ts ih =>
    obtain ⟨ht, hts⟩ := List.forall_mem_cons.1 h
    -- with nothing below it a table stays open to the end; otherwise a blank line closes it
    cases htail : ts.map (toLists ·.lines) ++ bs with
    | nil =>
      obtain rfl := List.map_eq_nil_iff.1 (List.append_eq_nil_iff.1 htail).1
      have hrun : r.run (toLists t.lines) = ⟨r.tables, some t.reread⟩ := by
        rw [← List.append_nil (toLists t.lines)]
        exact run_table ht (by simp)
      rw [List.map_cons, List.cons_append, htail, separated_singleton, hrun]
      rfl
    | cons c cs =>
      rw [List.map_cons, List.cons_append, htail, separated_cons_cons,
        run_table ht (by simp [Line.baseKind]), run_blank, ← htail, ih hts]
      simp [tables]

end TableReader

/-! ## The tables of a canonical text

The blocks of the text are run through one by one.  First the lines have to be shown to be the ones
that were written: no part of a table and no line of the presentation has a line break in it. -/

/-- The lines of a table: its name, its underline, and the lines of its fields. -/
theorem Table.forall_mem_lines {t : Table} {P : List Char → Prop} (hname : P t.name.toList)
    (hunderline : P t.underline.toList) (hfields : ∀ f ∈ t.fields, P f.text.toList) :
    ∀ l ∈ toLists t.lines, P l := by
  rw [toLists, lines, List.map_cons, List.map_cons, List.map_map]
  exact List.forall_mem_cons.2 ⟨hname, List.forall_mem_cons.2 ⟨hunderline,
    List.forall_mem_map.2 hfields⟩⟩

theorem Table.isLine_underline {t : Table} (h : t.name.toList ≠ []) :
    IsLine t.underline.toList := by
  rw [underline, String.toList_ofList]
  refine isLine_of_not_blank (fun heq ↦ h ?_) fun c hc ↦ ?_
  · rwa [List.replicate_eq_nil_iff, ← String.length_toList, List.length_eq_zero_iff] at heq
  · rw [List.eq_of_mem_replicate hc]
    decide

theorem Table.Declarable.isLine_of_mem_lines {t : Table} (h : t.Declarable) :
    ∀ l ∈ toLists t.lines, IsLine l :=
  forall_mem_lines h.name.toIsLine (isLine_underline h.name.ne_nil)
    fun f hf ↦ (h.fields f hf).isLine_text

theorem Table.IsLinewise.isUnbroken_of_mem_lines {t : Table} (h : t.IsLinewise) :
    ∀ l ∈ toLists t.lines, IsUnbroken l :=
  forall_mem_lines h.name.unbroken (isLine_underline h.name.ne_nil).unbroken
    fun f hf ↦ (h.fields f hf).isUnbroken_text

namespace Diagram

variable {d : Diagram} {lines : List String}

/-! ### Lines and blocks

What holds of the lines of each block, and of the empty line, holds of all lines of the text.  With
this the lines are shown to be unbroken and without blanks around them. -/

/-- The lines of a canonical text: those of its tables, those of its presentation, and empty ones
in between. -/
theorem forall_mem_blocks {P : List Char → Prop} (hempty : P [])
    (htables : ∀ t ∈ d.tables, ∀ l ∈ toLists t.lines, P l) (hlines : ∀ l ∈ toLists lines, P l) :
    ∀ l ∈ separated ((d.blocks lines).map toLists), P l := by
  intro l hl
  rcases mem_separated hl with rfl | ⟨b, hb, hlb⟩
  · exact hempty
  obtain ⟨c, hc, rfl⟩ := List.mem_map.1 hb
  rcases List.mem_append.1 hc with hb | hb
  · obtain ⟨t, ht, rfl⟩ := List.mem_map.1 hb
    exact htables t ht l hlb
  · split at hb
    · cases hb
    · rw [List.mem_singleton.1 hb] at hlb
      exact hlines l hlb

/-- The lines of a canonical text are the ones written. -/
theorem lines_unlines_blocks (h : ∀ t ∈ d.tables, t.IsLinewise)
    (hlines : ∀ l ∈ toLists lines, IsRemark l) :
    Text.lines (unlines (separated ((d.blocks lines).map toLists))) =
      separated ((d.blocks lines).map toLists) :=
  lines_unlines (forall_mem_blocks isUnbroken_nil (fun t ht ↦ (h t ht).isUnbroken_of_mem_lines)
    fun l hl ↦ (hlines l hl).unbroken)

theorem map_trim_blocks (h : ∀ t ∈ d.tables, t.Declarable)
    (hlines : ∀ l ∈ toLists lines, IsRemark l) :
    (separated ((d.blocks lines).map toLists)).map trim =
      separated ((d.blocks lines).map toLists) := by
  have htrim : ∀ l ∈ separated ((d.blocks lines).map toLists), trim l = l :=
    forall_mem_blocks rfl (fun t ht l hl ↦ ((h t ht).isLine_of_mem_lines l hl).trimmed.trim_eq)
      fun l hl ↦ (hlines l hl).trimmed.trim_eq
  exact (List.map_congr_left htrim).trans (List.map_id _)

theorem map_toLists_blocks (d : Diagram) (lines : List String) :
    (d.blocks lines).map toLists = d.tables.map (toLists ·.lines) ++
      if lines.isEmpty then [] else [toLists lines] := by
  rw [blocks, List.map_append, List.map_map, apply_ite (List.map _)]
  rfl

/-- **The tables of a canonical text** are those written, each field line read on its own. -/
theorem ofLines_classify (h : ∀ t ∈ d.tables, t.Declarable)
    (hlines : ∀ l ∈ toLists lines, IsRemark l) {s : String}
    (hs : s.toList = unlines (separated ((d.blocks lines).map toLists))) :
    Table.ofLines (Line.classify s) = d.tables.map Table.reread := by
  have hbreaks := lines_unlines_blocks (fun t ht ↦ (h t ht).isLinewise) hlines
  have hblanks := map_trim_blocks h hlines
  have hhash : ∀ b ∈ (if lines.isEmpty then [] else [toLists lines]), ∀ l ∈ b,
      l.head? = some '#' := by
    intro b hb l hl
    split at hb
    · cases hb
    · rw [List.mem_singleton.1 hb] at hl
      exact (hlines l hl).head
  rw [Table.ofLines, Line.classify, hs, hbreaks, hblanks, map_toLists_blocks]
  exact TableReader.tables_run_separated h (by split <;> simp) hhash {}

end Diagram

/-! ## The tables of any text

An invariant of the reader again, in one step for each line.  Every table that it opens is named by
a header, and every field that it adds comes from one line. -/

/-- The tables read so far are declarable. -/
def TableReader.Sound (r : TableReader) : Prop := ∀ t ∈ r.tables, t.Declarable

theorem TableReader.Sound.add {r : TableReader} (h : r.Sound) {l : Line}
    (hu : IsUnbroken l.text) (hkind : l.kind = .header → IsHeader l.text) :
    (r.add l).Sound := by
  rw [TableReader.add]
  split
  · next hheader =>
    refine List.forall_mem_append.2 ⟨h, List.forall_mem_singleton.2 ⟨?_, List.forall_mem_nil _⟩⟩
    rw [String.toList_ofList]
    exact hkind hheader
  · rwa [TableReader.Sound, TableReader.tables, Option.toList_none, List.append_nil]
  · split
    · next t f hcurrent hf =>
      rw [TableReader.Sound, TableReader.tables, hcurrent] at h
      obtain ⟨hclosed, htable⟩ := List.forall_mem_append.1 h
      have htable := List.forall_mem_singleton.1 htable
      refine List.forall_mem_append.2 ⟨hclosed, List.forall_mem_singleton.2 ⟨htable.name, ?_⟩⟩
      exact List.forall_mem_append.2 ⟨htable.fields,
        List.forall_mem_singleton.2 (Field.declarable_of_ofText? hu hf)⟩
    · exact h
  · exact h
  · exact h
  · exact h

theorem TableReader.Sound.foldl_classifyFrom {r : TableReader} (h : r.Sound) (n : Nat)
    {ls : List (List Char)} (hls : ∀ l ∈ ls, IsTrimmed l ∧ IsUnbroken l) :
    ((Line.classifyFrom n ls).foldl TableReader.add r).Sound := by
  induction ls generalizing n r with
  | nil => exact h
  | cons l ls ih =>
    obtain ⟨⟨ht, hu⟩, hls⟩ := List.forall_mem_cons.1 hls
    exact ih (h.add hu fun hkind ↦ Line.isHeader_of_kindAbove hkind ht hu) (n + 1) hls

/-- **The tables of any text are declarable.** -/
theorem Table.declarable_of_mem_ofLines {s : String} :
    ∀ t ∈ ofLines (Line.classify s), t.Declarable := by
  refine TableReader.Sound.foldl_classifyFrom (fun t ht ↦ by cases ht) 0 fun l hl ↦ ?_
  obtain ⟨m, hm, rfl⟩ := List.mem_map.1 hl
  exact ⟨isTrimmed_trim m, (isUnbroken_of_mem_lines hm).of_sublist (trim_sublist m)⟩

end ErDiagram
