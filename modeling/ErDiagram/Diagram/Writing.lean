import ErDiagram.Diagram.Reading

/-!
# Writing a diagram

The canonical text of a diagram: its tables, each a name, a line of dashes as long as the name, and
one line per field; then the lines for its presentation.  A blank line stands between any two of
these blocks, and the text ends with a line feed.  Presentation that no line can say is left out.

The words of a field line stand in one order, whatever the order in which they were read, and a word
stands for each part that is there.  The relation and the target are always spelled out behind `fk`,
also where the name of the field would suggest them.  The tables can always be written; the
presentation cannot if a coordinate is too large to be rounded.
-/

set_option autoImplicit false

namespace ErDiagram

/-- The words of a field line, in their canonical order. -/
def Field.words (f : Field) : List String :=
  [f.name] ++ (f.type.filter (· ≠ "")).toList ++
    (if f.modifiers.unsigned then ["unsigned"] else []) ++
    (if f.modifiers.null then ["null"] else []) ++
    (if f.modifiers.unique then ["unique"] else []) ++
    (match f.default with
      | some value => ["default", value]
      | none => []) ++
    (if f.modifiers.pk then ["pk"] else []) ++
    (match f.reference with
      | some r => ["fk", r.relation, r.table ++ "." ++ r.field]
      | none => if f.modifiers.fk then ["fk"] else [])

/-- A field as a line of text. -/
def Field.text (f : Field) : String := " ".intercalate f.words

/-- The line of dashes below the name of a table. -/
def Table.underline (t : Table) : String := String.ofList (List.replicate t.name.length '-')

/-- A table as lines of text. -/
def Table.lines (t : Table) : List String := t.name :: t.underline :: t.fields.map Field.text

/-- A table as text, without a line feed at the end. -/
def Table.text (t : Table) : String := "\n".intercalate t.lines

namespace Diagram

/-- The directives of a diagram, in the order in which they are written. -/
def directives (d : Diagram) : List Directive := d.presentation.directives d.names

/-- The lines for the presentation of a diagram. -/
def presentationLines (d : Diagram) : Except Error (List String) := do
  return (← d.directives.mapM Directive.readableLine).filterMap id

/-- Blocks of text with a blank line between any two, and a line feed at the end. -/
def joinBlocks (blocks : List String) : String :=
  if blocks.isEmpty then "" else "\n\n".intercalate blocks ++ "\n"

/-- A diagram as text, without its presentation. -/
def tablesText (d : Diagram) : String := joinBlocks (d.tables.map Table.text)

/-- A diagram as text, with its presentation or without. -/
def text (d : Diagram) (withPresentation : Bool) : Except Error String :=
  if withPresentation then do
    let lines ← d.presentationLines
    return joinBlocks (d.tables.map Table.text ++
      if lines.isEmpty then [] else ["\n".intercalate lines])
  else .ok d.tablesText

/-- A text in canonical form. -/
def format (text : String) (withPresentation : Bool) : Except Error String := do
  (← ofText text).text withPresentation

end Diagram
end ErDiagram
