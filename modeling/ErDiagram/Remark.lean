import ErDiagram.Diagram.Writing
import ErDiagram.Normalization
import ErDiagram.Query
import ErDiagram.Text.Quoted

/-!
# Remarks

What the library passes over in silence can be told all the same.  A *remark* names something that
was dropped, ignored or left out.  Each list of remarks here is computed from the same data as the
result it belongs to, in the order in which that result comes about; none has any influence on it.
-/

set_option autoImplicit false

namespace ErDiagram

/-- Something that was passed over. -/
inductive Remark where
  /-- A character of a field line that starts no token, behind `column` others. -/
  | strayCharacter (c : Char) (column : Nat)
  /-- A part of a field line without effect; lines are numbered from one. -/
  | unusedItem (text field : String) (line : Nat)
  /-- A text line outside any table; lines are numbered from one. -/
  | lineOutsideTable (line : Nat) (text : String)
  /-- A line of a table that does not start with a name; lines are numbered from one. -/
  | lineWithoutName (line : Nat) (text : String)
  /-- A field to be moved that no table declares. -/
  | fieldNotDeclared (field : String)
  /-- A column left out of a query. -/
  | columnLeftOut (base : String) (column : Column)
  /-- A directive that no line can say, with the line it would have been. -/
  | unreadableLine (slot : Slot) (line : String)
  deriving DecidableEq, Repr

namespace Remark

/-- Whether a remark is a warning; all others are details that only some readers want. -/
def isWarning : Remark → Bool
  | unreadableLine _ _ => true
  | _ => false

/-- The part of the program that a remark comes from. -/
def channel : Remark → String
  | strayCharacter _ _ => "quick_erd.parsing.schema_lexer"
  | unusedItem _ _ _ | lineOutsideTable _ _ | lineWithoutName _ _ =>
    "quick_erd.parsing.schema_parser"
  | fieldNotDeclared _ => "quick_erd.normalize"
  | columnLeftOut _ _ => "quick_erd.query"
  | unreadableLine _ _ => "quick_erd.meta"

/-- The wording of a remark. -/
def message : Remark → String
  | strayCharacter c column =>
    "Skipping illegal character " ++ Text.quoted (String.ofList [c]) ++ " at column " ++
      toString column
  | unusedItem text field line =>
    "Ignoring " ++ Text.quoted text ++ " in field " ++ Text.quoted field ++ " on line " ++
      toString line
  | lineOutsideTable line text =>
    "Dropping line " ++ toString line ++ " outside a table: " ++ Text.quoted text
  | lineWithoutName line text =>
    "Dropping line " ++ toString line ++ " without a field name: " ++ Text.quoted text
  | fieldNotDeclared field => "No table has a field named " ++ Text.quoted field
  | columnLeftOut base column => "No join path from " ++ base ++ " to " ++ column.text
  | unreadableLine slot line =>
    "Not writing " ++ slot.name ++ " line " ++ Text.quoted line ++
      ": it would be read back as a comment"

/-- A remark as a line of a log. -/
def logLine (r : Remark) : String :=
  (if r.isWarning then "WARNING " else "DEBUG ") ++ r.channel ++ ": " ++ r.message ++ "\n"

/-! ## Remarks on results

For each operation there is the list of what it passes over.  They share the definitions of the
operations where they can, so that a remark is made in just those cases in which something was
passed over. -/

/-- The remarks on one text line that stands in a table. -/
def onFieldLine (l : Line) : List Remark :=
  (Piece.strays 0 (Piece.cut none l.text)).map (fun (c, column) ↦ strayCharacter c column) ++
    match FieldLine.ofText? l.text with
    | none => [lineWithoutName (l.number + 1) (String.ofList l.text)]
    | some f => (FieldLine.unused false f.items).map (unusedItem · f.name (l.number + 1))

/-- The remarks on reading a text. -/
def onReading (text : String) : List Remark :=
  (Line.inTables none (Line.classify text)).flatMap fun (table, l) ↦
    match table with
    | none => [lineOutsideTable (l.number + 1) (String.ofList l.text)]
    | some _ => onFieldLine l

/-- The remarks on writing directives: one for each that no line can say, up to the first whose
numbers cannot be written at all. -/
def onDirectives : List Directive → List Remark
  | [] => []
  | d :: ds =>
    match d.line with
    | .error _ => []
    | .ok line =>
      (if (d.slot.recognise? line.toList).isSome then [] else [unreadableLine d.slot line]) ++
        onDirectives ds

/-- The remarks on writing a diagram with its presentation. -/
def onWriting (d : Diagram) : List Remark := onDirectives d.directives

/-- The remarks on moving a field into a lookup table. -/
def onNormalizing (d : Diagram) (field : String) (lookup : Option String) : List Remark :=
  if (d.affected? field lookup).isSome then [] else [fieldNotDeclared field]

/-- The remarks on the query for chosen columns. -/
def onQuery (columns : List Column) (tables : List Table) : List Remark :=
  (Query.leftOut columns tables).map fun (base, column) ↦ columnLeftOut base column

end Remark
end ErDiagram
