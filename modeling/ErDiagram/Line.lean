import ErDiagram.Directive.Reading

/-!
# The lines of a diagram's text

Every line is of one of six kinds, which depend on the line without the blanks around it and, for a
header, on the line below: a header is a text line directly above a line of dashes.

The kinds are settled before anything is read.  The reader of tables, the reader of directives and
the editor all go over classified lines, so they agree on what a line is, and each can pass over the
kinds that are none of its business.  Looking one line ahead is needed here and nowhere else.
-/

set_option autoImplicit false

namespace ErDiagram

/-- The kinds of lines. -/
inductive LineKind where
  /-- Nothing but blanks. -/
  | blank
  /-- A directive line. -/
  | directive
  /-- Any other line that starts with a number sign. -/
  | comment
  /-- Nothing but dashes. -/
  | dashes
  /-- A text line above dashes. -/
  | header
  /-- Any other line. -/
  | text
  deriving DecidableEq, Repr

/-- A line with its kind and its place. -/
structure Line where
  /-- The kind of the line. -/
  kind : LineKind
  /-- The line without the blanks around it. -/
  text : List Char
  /-- The number of lines above it. -/
  number : Nat
  deriving DecidableEq, Repr

namespace Line

/-- The kind of a line on its own, which is never a header; `line` has no blanks around it. -/
def baseKind (line : List Char) : LineKind :=
  if line.isEmpty then .blank
  else if line.head? = some '#' then if isDirectiveLine line then .directive else .comment
  else if line.all (· == '-') then .dashes
  else .text

/-- The kind of a line above another, or above none. -/
def kindAbove (line : List Char) (below : Option (List Char)) : LineKind :=
  if baseKind line = .text ∧ below.map baseKind = some .dashes then .header else baseKind line

/-- Lines numbered from `n` on, each with its kind; they have no blanks around them. -/
def classifyFrom (n : Nat) : List (List Char) → List Line
  | [] => []
  | l :: ls => ⟨kindAbove l ls.head?, l, n⟩ :: classifyFrom (n + 1) ls

/-- The lines of a text with their kinds. -/
def classify (text : String) : List Line :=
  classifyFrom 0 ((Text.lines text.toList).map Text.trim)

end Line
end ErDiagram
