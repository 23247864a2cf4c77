import ErDiagram.Directive.Reading

/-!
# Editing one directive of a text

`Directive.set` writes one directive into a text and leaves the rest: the line takes the place of
the first line it supersedes, or comes last when there is none.  A position line supersedes only the
line of its own table.  A directive that no line can say changes nothing.

The text that is not replaced is kept line by line and not character by character: where a line
takes the place of another, all line breaks become line feeds, and where it comes last, nothing of
the text is touched.
-/

set_option autoImplicit false

namespace ErDiagram.Directive

/-- Whether a line for a directive takes the place of a given line. -/
def supersedes (d : Directive) (line : List Char) : Bool :=
  match d with
  | position table _ => isPositionLineOf table (Text.trim line)
  | d => (d.slot.recognise? (Text.trim line)).isSome

/-- A text with a line in the place of the `i`-th.  Its line breaks become line feeds, and it ends
with one if it did so before. -/
def replaceLine (text : List Char) (i : Nat) (line : List Char) : List Char :=
  Text.joinLines ((Text.lines text).set i line) ++
    if text.getLast? = some '\n' then ['\n'] else []

/-- A text with a line behind it. -/
def appendLine (text line : List Char) : List Char :=
  if text.isEmpty ∨ text.getLast? = some '\n' then text ++ line ++ ['\n']
  else text ++ '\n' :: line ++ ['\n']

/-- A text with a directive written into it. -/
def set (d : Directive) (text : String) : Except Error String := do
  match ← d.readableLine with
  | none => return text
  | some line =>
    return String.ofList <|
      match (Text.lines text.toList).findIdx? d.supersedes with
      | some i => replaceLine text.toList i line.toList
      | none => appendLine text.toList line.toList

end ErDiagram.Directive
