import ErDiagram.Diagram.Reading

/-!
# Diagnostics

What an editor marks in the text of a diagram: references to tables or fields that are not declared,
and tables that are declared again.

The problems are found in the diagram and placed by the lines.  The declarations among the lines
give each field a line, and the headers among the lines give each table one; that these are the
fields and tables of the diagram is shown in `ErDiagram.Proofs.Diagram.Declarations`.
-/

set_option autoImplicit false

namespace ErDiagram.Editor

/-- A stretch of a text, from a place in a line to a place in a line. -/
structure Span where
  /-- The line of the start. -/
  startLine : Nat
  /-- The place of the start in its line. -/
  startColumn : Nat
  /-- The line of the end. -/
  endLine : Nat
  /-- The place of the end in its line. -/
  endColumn : Nat
  deriving DecidableEq, Repr

/-- The stretch of a line without the blanks around it; a line that is not there is empty. -/
def Span.ofLine (lines : List (List Char)) (number : Nat) : Span :=
  let line := lines[number]?.getD []
  let start := line.length - (Text.trimStart line).length
  ⟨number, start, number, max (Text.trimEnd line).length start⟩

/-- What is wrong with a declaration. -/
inductive Problem where
  /-- A field refers to a table that is not declared. -/
  | unknownTable (table field target : String)
  /-- A field refers to a field that its table lacks. -/
  | unknownField (table field target targetField : String)
  /-- A table is declared again. -/
  | declaredAgain (table : String)
  deriving DecidableEq, Repr

namespace Problem

/-- Whether a problem is an error; all others are warnings. -/
def isError : Problem → Bool
  | unknownTable _ _ _ => true
  | _ => false

/-- The wording of a problem. -/
def message : Problem → String
  | unknownTable table field target =>
    table ++ "." ++ field ++ " references unknown table '" ++ target ++ "'"
  | unknownField table field target targetField =>
    table ++ "." ++ field ++ " references unknown field '" ++ target ++ "." ++ targetField ++ "'"
  | declaredAgain table => "Table '" ++ table ++ "' is declared more than once"

end Problem

/-- A problem and where it is. -/
structure Diagnostic where
  /-- The problem. -/
  problem : Problem
  /-- Where it is. -/
  span : Span
  deriving DecidableEq, Repr

/-- The name under which diagnostics are reported. -/
def Diagnostic.source : String := "quick-erd"

/-- The problem with what a field refers to, if there is one. -/
def referenceProblem? (tables : List Table) (d : Declaration) : Option Problem :=
  d.field.reference.bind fun r ↦
    match Table.find? tables r.table with
    | none => some (.unknownTable d.table d.field.name r.table)
    | some target =>
      if (target.field? r.field).isSome then none
      else some (.unknownField d.table d.field.name r.table r.field)

/-- Of the headers among classified lines that have one of the given names, all but the first of
each name.  `seen` holds the names that were met before. -/
def repeatedHeaders (names seen : List String) : List Line → List Line
  | [] => []
  | l :: ls =>
    let name := String.ofList l.text
    if l.kind = .header ∧ name ∈ names then
      (if name ∈ seen then [l] else []) ++ repeatedHeaders names (name :: seen) ls
    else repeatedHeaders names seen ls

/-- The diagnostics of a text: those on references first, in the order of the lines, then those on
repeated declarations. -/
def diagnostics (text : String) : Except Error (List Diagnostic) := do
  let diagram ← Diagram.ofText text
  let lines := Text.lines text.toList
  let classified := Line.classify text
  return (Declaration.ofLines classified).filterMap (fun d ↦
      (referenceProblem? diagram.tables d).map (⟨·, Span.ofLine lines d.line.number⟩)) ++
    (repeatedHeaders (Table.duplicateNames diagram.tables) [] classified).map fun l ↦
      ⟨.declaredAgain (String.ofList l.text), Span.ofLine lines l.number⟩

end ErDiagram.Editor
