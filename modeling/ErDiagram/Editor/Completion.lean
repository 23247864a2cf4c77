import ErDiagram.Diagram.Writing

/-!
# Completion

What an editor offers at a place in the text of a diagram.  Behind a relation it offers tables, and
behind a relation and the name of a table with a point the fields of that table; elsewhere, behind
the first word of a line, the keywords of a field line.

What is offered depends on the diagram and on the text between the start of the line and the cursor.
One kind of context after the other is tried on that text, and the first one that fits decides.  A
place is counted from the end if it is negative, as indices into lists and texts are.
-/

set_option autoImplicit false

namespace ErDiagram.Editor

/-- What kind of thing is offered. -/
inductive SuggestionKind where
  /-- A field of a table. -/
  | field
  /-- A table. -/
  | table
  /-- A keyword. -/
  | keyword
  deriving DecidableEq, Repr

/-- Something offered for completion. -/
structure Suggestion where
  /-- The text to be put in. -/
  label : String
  /-- What it is. -/
  kind : SuggestionKind
  /-- What is shown beside it. -/
  detail : String
  deriving DecidableEq, Repr

/-- The keywords of a field line, each with what it means. -/
def keywords : List (String × String) :=
  [("pk", "Primary key"),
   ("fk", "Foreign key; without a target, `x_id` references `x.id`"),
   ("null", "Nullable column"),
   ("unique", "Unique column"),
   ("unsigned", "Unsigned numeric column"),
   ("default", "Default value, e.g. `default 0`")]

/-- The element of a list at a place, counted from the end if it is negative: `none` behind the
list, an error before it. -/
def atPlace? {α : Type} (l : List α) (i : Int) : Except Error (Option α) :=
  if 0 ≤ i then .ok l[i.toNat]?
  else if i.natAbs ≤ l.length then .ok l[l.length - i.natAbs]?
  else .error .outOfRange

/-- The part of a line up to a place, counted from the end if it is negative. -/
def upTo (line : List Char) (i : Int) : List Char :=
  if 0 ≤ i then line.take i.toNat else line.take (line.length - i.natAbs)

/-! ## The context of a place

Each kind of context is a property of the text in front of the cursor. -/

/-- Whether a text, given from its end on, ends in a relation and at least one blank. -/
def endsInRelation (reversed : List Char) : Bool :=
  reversed.head?.any Text.isBlank &&
    relationSpellings.any fun s ↦ s.toList.reverse.isPrefixOf (reversed.dropWhile Text.isBlank)

/-- The table whose fields are asked for: the text before the cursor ends in a relation, blanks, the
name of the table, a point and the beginning of a word. -/
def fieldContext? (before : List Char) : Option (List Char) :=
  match before.reverse.dropWhile Text.isWordChar with
  | '.' :: rest =>
    let table := rest.takeWhile Text.isWordChar
    if !table.isEmpty && endsInRelation (rest.dropWhile Text.isWordChar) then some table.reverse
    else none
  | _ => none

/-- Whether a table is asked for: the text before the cursor ends in a relation, blanks and the
beginning of a word. -/
def isTableContext (before : List Char) : Bool :=
  endsInRelation (before.reverse.dropWhile Text.isWordChar)

/-- Whether a keyword may be meant: the text before the cursor holds a space behind its first
word. -/
def isKeywordContext (before : List Char) : Bool :=
  !Text.isBlankText before && (Text.trimStart before).contains ' '

/-- What is offered behind a text in a line of a diagram. -/
def suggestions (diagram : Diagram) (before : List Char) : List Suggestion :=
  match fieldContext? before with
  | some table =>
    match diagram.table? (String.ofList table) with
    | some t => t.fields.map fun f ↦ ⟨f.name, .field, f.text⟩
    | none => []
  | none =>
    if isTableContext before then diagram.names.eraseDups.map fun n ↦ ⟨n, .table, "Table"⟩
    else if isKeywordContext before then keywords.map fun (k, detail) ↦ ⟨k, .keyword, detail⟩
    else []

/-- What is offered at a place of a text.  Behind the last line there is an empty one. -/
def completion (text : String) (line column : Int) : Except Error (List Suggestion) := do
  let current ← atPlace? (Text.lines text.toList) line
  let diagram ← Diagram.ofText text
  return suggestions diagram (upTo (current.getD []) column)

end ErDiagram.Editor
