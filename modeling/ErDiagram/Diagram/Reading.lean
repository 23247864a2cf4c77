import ErDiagram.Diagram.Basic
import ErDiagram.FieldLine.Field
import ErDiagram.Line

/-!
# Reading a diagram

A header opens a table, a blank line closes it, and in between every text line declares a field.
Comments, directives and dashes stand anywhere and change no table.  A text line outside a table,
or one that does not start with a name, is dropped: no text is rejected for its tables.  Only the
numbers of directive lines can be faulty.

The tables and the presentation are read apart, each off all lines of the text.  The tables are a
fold over the classified lines: the reader keeps the tables that are closed, to which nothing is
added any more, and the one that is open.
-/

set_option autoImplicit false

namespace ErDiagram

/-- The tables read so far. -/
structure TableReader where
  /-- The tables that are closed. -/
  closed : List Table := []
  /-- The table that is open, if there is one. -/
  current : Option Table := none
  deriving DecidableEq, Repr

namespace TableReader

/-- All tables read, the open one last. -/
def tables (r : TableReader) : List Table := r.closed ++ r.current.toList

/-- The tables after one more line. -/
def add (r : TableReader) (l : Line) : TableReader :=
  match l.kind with
  | .header => ⟨r.tables, some ⟨String.ofList l.text, []⟩⟩
  | .blank => ⟨r.tables, none⟩
  | .text =>
    match r.current, Field.ofText? l.text with
    | some t, some f => { r with current := some { t with fields := t.fields ++ [f] } }
    | _, _ => r
  | .directive | .comment | .dashes => r

end TableReader

/-- The tables that classified lines declare. -/
def Table.ofLines (ls : List Line) : List Table := (ls.foldl TableReader.add {}).tables

/-- The diagram that a text describes. -/
def Diagram.ofText (text : String) : Except Error Diagram := do
  let tables := Table.ofLines (Line.classify text)
  return { tables, presentation := ← Presentation.read (Text.lines text.toList) }

/-! ## Lines and the tables they stand in

An editor wants to know in which table a line stands without reading the tables.  It is enough to
remember the last header, up to a blank line.  That this agrees with the reader, name by name and
field by field, is a theorem about the two (`Table.entries_ofLines`). -/

/-- The table open below a line, given the table open above it. -/
def Line.tableBelow (l : Line) (above : Option String) : Option String :=
  match l.kind with
  | .header => some (String.ofList l.text)
  | .blank => none
  | _ => above

/-- The text lines among classified lines, each with the table it stands in. -/
def Line.inTables (above : Option String) : List Line → List (Option String × Line)
  | [] => []
  | l :: ls =>
    (if l.kind = .text then [(above, l)] else []) ++ inTables (l.tableBelow above) ls

/-- A declaration of a field in the text. -/
structure Declaration where
  /-- The name of the table that the field belongs to. -/
  table : String
  /-- The line that declares it. -/
  line : Line
  /-- The field. -/
  field : Field
  deriving DecidableEq, Repr

/-- The declarations of fields among classified lines. -/
def Declaration.ofLines (ls : List Line) : List Declaration :=
  (Line.inTables none ls).filterMap fun (table, line) ↦ do
    return { table := ← table, line, field := ← Field.ofText? line.text }

end ErDiagram
