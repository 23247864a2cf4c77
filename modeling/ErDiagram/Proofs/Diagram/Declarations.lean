import Mathlib.Data.List.Duplicate
import ErDiagram.Proofs.Diagram.Tables

/-!
# Declarations and the tables they make up

An editor goes over the lines of a text by itself to find out where each field is declared.  What it
finds are the fields of the tables, in the order of the tables (`Table.entries_ofLines`), and the
headers it meets are the names of the tables (`Table.map_name_ofLines`).  So a header repeats an
earlier one just in case its name is among those that more than one table has
(`Line.mem_duplicateNames_of_repeats`).
-/

set_option autoImplicit false

namespace ErDiagram

open Text

/-! ## Fields with the names of their tables

Both sides are brought to one form: pairs of the name of a table and a field.  The editor finds them
line by line, with the name of the table open above each line; the reader has them in its tables. -/

/-- The fields of a table, each with the name of the table. -/
def Table.entries (t : Table) : List (String × Field) := t.fields.map (t.name, ·)

/-- The fields of a diagram, each with the name of its table, in the order of declaration. -/
def Diagram.entries (d : Diagram) : List (String × Field) := d.tables.flatMap Table.entries

/-- The field that is declared, with the name of its table. -/
def Declaration.entry (c : Declaration) : String × Field := (c.table, c.field)

/-- The declarations among lines, given the table that is open above them. -/
def Declaration.below (above : Option String) (ls : List Line) : List Declaration :=
  (Line.inTables above ls).filterMap fun (table, line) ↦ do
    return { table := ← table, line, field := ← Field.ofText? line.text }

/-- What a line declares, given the table that is open above it. -/
def Line.declaration? (above : Option String) (l : Line) : Option Declaration :=
  if l.kind = .text then do return { table := ← above, line := l, field := ← Field.ofText? l.text }
  else none

theorem Declaration.below_cons (above : Option String) (l : Line) (ls : List Line) :
    below above (l :: ls) = (l.declaration? above).toList ++ below (l.tableBelow above) ls := by
  rw [below, Line.inTables, List.filterMap_append, below]
  congr 1
  rw [Line.declaration?]
  split
  · rw [List.filterMap_cons, List.filterMap_nil]
    cases above with
    | none => rfl
    | some table => cases hf : Field.ofText? l.text <;> simp [hf]
  · rfl

theorem Line.of_declaration? {above : Option String} {l : Line} {c : Declaration}
    (h : l.declaration? above = some c) : c.line = l := by
  rw [declaration?] at h
  split at h
  · obtain ⟨table, -, h⟩ := Option.bind_eq_some_iff.1 h
    obtain ⟨f, -, h⟩ := Option.bind_eq_some_iff.1 h
    obtain rfl := Option.some.inj h
    rfl
  · cases h

/-- The line of a declaration is one of the lines. -/
theorem Declaration.line_mem_of_mem_below {above : Option String} {ls : List Line}
    {c : Declaration} (h : c ∈ below above ls) : c.line ∈ ls := by
  induction ls generalizing above with
  | nil => cases h
  | cons l ls ih =>
    rw [below_cons] at h
    rcases List.mem_append.1 h with h | h
    · rw [Line.of_declaration? (Option.mem_toList.1 h)]
      exact List.mem_cons_self
    · exact List.mem_cons_of_mem _ (ih h)

/-! ## What one line adds, and what all lines add

The lemmas about one line follow the kinds of lines.  Then the fields and the names that have been
added so far are invariants of the fold, with the name of the open table as the link between the
reader and the editor. -/

namespace TableReader

variable (r : TableReader) (l : Line)

/-- The name of the table that is open. -/
def openName : Option String := r.current.map Table.name

theorem openName_add : (r.add l).openName = l.tableBelow r.openName := by
  rw [add, Line.tableBelow]
  cases l.kind with
  | header | blank | directive | comment | dashes => rfl
  | text =>
    dsimp only
    split
    · next hcurrent _ =>
      rw [openName, openName, hcurrent]
      rfl
    · rfl

theorem entries_add : (r.add l).tables.flatMap Table.entries =
    r.tables.flatMap Table.entries ++
      ((l.declaration? r.openName).map Declaration.entry).toList := by
  rw [add, Line.declaration?]
  cases hkind : l.kind with
  | header => simp [tables, Table.entries]
  | blank => simp [tables]
  | directive | comment | dashes => simp
  | text =>
    dsimp only
    rw [if_pos rfl, openName]
    cases hcurrent : r.current with
    | none => simp
    | some t =>
      cases Field.ofText? l.text with
      | none => simp
      | some f => simp [tables, hcurrent, Table.entries, Declaration.entry]

theorem map_name_add : (r.add l).tables.map Table.name =
    r.tables.map Table.name ++ if l.kind = .header then [String.ofList l.text] else [] := by
  rw [add]
  cases l.kind with
  | header => simp [tables]
  | blank => simp [tables]
  | directive | comment | dashes => simp
  | text =>
    dsimp only
    split
    · next hcurrent _ => simp [tables, hcurrent]
    · simp

/-- The fields that lines add are those that they declare. -/
theorem entries_foldl (ls : List Line) : (ls.foldl add r).tables.flatMap Table.entries =
    r.tables.flatMap Table.entries ++ (Declaration.below r.openName ls).map Declaration.entry := by
  induction ls generalizing r with
  | nil => exact (List.append_nil _).symm
  | cons l ls ih =>
    rw [List.foldl_cons, ih, entries_add, openName_add, Declaration.below_cons, List.map_append,
      List.append_assoc]
    cases l.declaration? r.openName <;> rfl

/-- The tables that lines add are named by their headers. -/
theorem map_name_foldl (ls : List Line) : (ls.foldl add r).tables.map Table.name =
    r.tables.map Table.name ++ (ls.filter (·.kind = .header)).map (String.ofList ·.text) := by
  induction ls generalizing r with
  | nil => exact (List.append_nil _).symm
  | cons l ls ih =>
    rw [List.foldl_cons, ih, map_name_add, List.append_assoc, List.filter_cons]
    congr 1
    by_cases hkind : l.kind = .header <;> simp [hkind]

end TableReader

/-- **The fields of the tables** are those that the lines declare, in the same order. -/
theorem Table.entries_ofLines (ls : List Line) :
    (ofLines ls).flatMap Table.entries = (Declaration.ofLines ls).map Declaration.entry :=
  TableReader.entries_foldl {} ls

/-- **The names of the tables** are those in the headers. -/
theorem Table.map_name_ofLines (ls : List Line) :
    (ofLines ls).map Table.name = (ls.filter (·.kind = .header)).map (String.ofList ·.text) :=
  TableReader.map_name_foldl {} ls

/-! ## Lines and their numbers

The number of a line is the number of lines above it.  So lines are found by their numbers, and they
stand in the order of these. -/

namespace Line

variable {n : Nat} {ls : List (List Char)} {text : String} {k l : Line}

theorem of_mem_classifyFrom (h : l ∈ classifyFrom n ls) :
    n ≤ l.number ∧ ls[l.number - n]? = some l.text := by
  induction ls generalizing n with
  | nil => cases h
  | cons m ls ih =>
    rcases List.mem_cons.1 h with rfl | h
    · simp
    · obtain ⟨hle, hline⟩ := ih h
      refine ⟨by omega, ?_⟩
      rw [show l.number - n = l.number - (n + 1) + 1 by omega, List.getElem?_cons_succ]
      exact hline

/-- A line of a text is found by its number, up to the blanks around it. -/
theorem exists_of_mem_classify (h : l ∈ classify text) :
    ∃ line, (lines text.toList)[l.number]? = some line ∧ l.text = trim line := by
  have hline := (of_mem_classifyFrom h).2
  rw [Nat.sub_zero, List.getElem?_map] at hline
  obtain ⟨line, hline, htrim⟩ := Option.map_eq_some_iff.1 hline
  exact ⟨line, hline, htrim.symm⟩

theorem pairwise_number_classifyFrom (n : Nat) (ls : List (List Char)) :
    (classifyFrom n ls).Pairwise (·.number < ·.number) := by
  induction ls generalizing n with
  | nil => exact .nil
  | cons l ls ih => exact .cons (fun m hm ↦ (of_mem_classifyFrom hm).1) (ih (n + 1))

/-- Lines are numbered in their order. -/
theorem pairwise_number_classify (text : String) :
    (classify text).Pairwise (·.number < ·.number) :=
  pairwise_number_classifyFrom 0 _

end Line

/-! ## Names that are declared again

`noteName` keeps the names met so far and those met again.  A name is among the latter just in case
it occurs twice among the names of the tables, in which place is of no concern here; the order in
which the names are noted is looked at in `ErDiagram.Proofs.Diagram.Repetition`. -/

/-- The names that tables had so far and those that more than one had, with one more table. -/
def Table.noteName (names : List String × List String) (t : Table) : List String × List String :=
  (t.name :: names.1,
    if t.name ∈ names.1 ∧ t.name ∉ names.2 then names.2 ++ [t.name] else names.2)

/-- A name is noted twice if it was, or if tables that had it so far and tables that follow are more
than one. -/
theorem Table.mem_foldl_noteName {ts : List Table} {seen twice : List String} {name : String} :
    name ∈ (ts.foldl noteName (seen, twice)).2 ↔
      name ∈ twice ∨ name ∈ seen ∧ name ∈ ts.map Table.name ∨
        (ts.map Table.name).Duplicate name := by
  induction ts generalizing seen twice with
  | nil => simp
  | cons t ts ih =>
    rw [List.foldl_cons, noteName, ih, List.map_cons, List.duplicate_cons_iff, List.mem_cons,
      List.mem_cons]
    by_cases heq : name = t.name
    · subst heq
      by_cases hseen : t.name ∈ seen <;> by_cases htwice : t.name ∈ twice <;> simp [hseen, htwice]
    · have htwice : name ∈ (if t.name ∈ seen ∧ t.name ∉ twice then twice ++ [t.name] else twice) ↔
          name ∈ twice := by
        split <;> simp [heq]
      simp [htwice, heq, Ne.symm heq]

/-- The names that more than one table has. -/
theorem Table.mem_duplicateNames {ts : List Table} {name : String} :
    name ∈ duplicateNames ts ↔ (ts.map Table.name).Duplicate name := by
  have hfold : duplicateNames ts = (ts.foldl noteName ([], [])).2 := rfl
  rw [hfold, mem_foldl_noteName]
  simp

namespace Line

variable {ls : List Line} {k l : Line}

/-- A line is a header of the same name as one above it, among the given lines. -/
def Repeats (ls : List Line) (l : Line) : Prop :=
  l.kind = .header ∧ ∃ k ∈ ls, k.kind = .header ∧ k.number < l.number ∧ k.text = l.text

instance (ls : List Line) (l : Line) : Decidable (Repeats ls l) :=
  inferInstanceAs (Decidable (_ ∧ _))

/-- Of two lines the one with the smaller number comes first. -/
theorem pair_sublist (h : ls.Pairwise (·.number < ·.number)) (hk : k ∈ ls) (hl : l ∈ ls)
    (hlt : k.number < l.number) : [k, l].Sublist ls := by
  obtain ⟨before, after, rfl⟩ := List.append_of_mem hk
  obtain ⟨-, -, hbefore⟩ := List.pairwise_append.1 h
  have hafter : l ∈ after := by
    rcases List.mem_append.1 hl with hl | hl
    · have := hbefore l hl k List.mem_cons_self
      omega
    · rcases List.mem_cons.1 hl with rfl | hl
      · exact absurd hlt (Nat.lt_irrefl _)
      · exact hl
  exact List.sublist_append_of_sublist_right ((List.singleton_sublist.2 hafter).cons_cons k)

/-- The name in a header that repeats one is the name of more than one table. -/
theorem mem_duplicateNames_of_repeats (h : ls.Pairwise (·.number < ·.number)) (hl : l ∈ ls)
    (hrepeats : Repeats ls l) :
    String.ofList l.text ∈ Table.duplicateNames (Table.ofLines ls) := by
  obtain ⟨hheader, k, hk, hkheader, hlt, htext⟩ := hrepeats
  have hpair := ((pair_sublist h hk hl hlt).filter (·.kind = .header)).map (String.ofList ·.text)
  rw [Table.mem_duplicateNames, Table.map_name_ofLines, List.duplicate_iff_sublist]
  simpa [hheader, hkheader, htext] using hpair

end Line

end ErDiagram
