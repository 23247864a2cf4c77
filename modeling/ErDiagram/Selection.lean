import ErDiagram.Query
import ErDiagram.Text.Lines

/-!
# Selections

A selection is the list of columns chosen on a diagram, in the order in which they were chosen,
together with the tables they belong to.  Every operation says, beside the new selection, which
*changes* it made, so that a view of the selection can follow it.

The columns are a list and not a set: `add` does not ask whether a column is there already, and
`remove` takes the first occurrence only.  What this means for a selection that is meant as a set is
worked out in `ErDiagram.Proofs.Selection.Runs`.
-/

set_option autoImplicit false

namespace ErDiagram

/-- A change of a selection. -/
inductive Selection.Change where
  /-- A column was added at the end. -/
  | add (column : Column)
  /-- The first occurrence of a column was removed. -/
  | remove (column : Column)
  deriving DecidableEq, Repr

/-- The columns chosen on a diagram. -/
structure Selection where
  /-- The tables that the columns belong to. -/
  tables : List Table := []
  /-- The chosen columns, in the order of their choice. -/
  columns : List Column := []
  deriving DecidableEq, Repr

namespace Selection

/-- The place of the first occurrence of a column. -/
def index? (s : Selection) (c : Column) : Option Nat := s.columns.findIdx? (· == c)

/-- Whether a column is chosen. -/
def contains (s : Selection) (c : Column) : Bool := (s.index? c).isSome

/-- The selection with a column at the end. -/
def add (s : Selection) (c : Column) : Selection × List Change :=
  ({ s with columns := s.columns ++ [c] }, [.add c])

/-- The selection without the first occurrence of a column. -/
def remove (s : Selection) (c : Column) : Selection × List Change :=
  match s.index? c with
  | some i => ({ s with columns := s.columns.eraseIdx i }, [.remove c])
  | none => (s, [])

/-- The selection with a column removed if it was chosen, and added if not; in front stands whether
it was added. -/
def toggle (s : Selection) (c : Column) : Bool × Selection × List Change :=
  if s.contains c then (false, s.remove c) else (true, s.add c)

/-- The selection over other tables. -/
def setTables (s : Selection) (tables : List Table) : Selection := { s with tables }

/-- The query for a selection, if there is one. -/
def query? (s : Selection) : Option Query := Query.ofColumns? s.columns s.tables

/-- A selection as text, one column on each line. -/
def text (s : Selection) : String := String.join (s.columns.map fun c ↦ c.text ++ "\n")

/-- The columns that a text names, one on each line that is not blank. -/
def columnsOfText (text : String) : Except Error (List Column) :=
  ((Text.lines text.toList).filter (!Text.isBlankText ·)).mapM fun l ↦
    Column.ofText (String.ofList l)

end Selection
end ErDiagram
