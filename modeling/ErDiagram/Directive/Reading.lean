import ErDiagram.Directive.Line
import ErDiagram.Text.Blank
import ErDiagram.Text.Lines

/-!
# Reading directives

Directives are read off the lines of a text, with blanks around a line taken away.  `Slot.search`
and `Slot.searchAll` look for one slot.  `Directive.collect` reads all of them in one pass and keeps
what counts: the first line of each slot that holds one value — a later one is not even evaluated,
so its numbers cannot fail — and every position line.

`Slot.search` stops at the first line of its slot, and so does `Directive.collect`, though it goes
on with other slots: a faulty line is reported by either only where its value is needed.
`Slot.searchAll` evaluates all of them.
-/

set_option autoImplicit false

namespace ErDiagram

namespace Slot

/-- The directive of this slot that a line holds. -/
def read (s : Slot) (line : List Char) : Except Error (Option Directive) :=
  match s.recognise? (Text.trim line) with
  | none => .ok none
  | some l => l.value.map some

/-- The directives of this slot in a list of lines. -/
def searchAll (s : Slot) (lines : List (List Char)) : Except Error (List Directive) := do
  return (← lines.mapM s.read).filterMap id

/-- The first directive of this slot in a list of lines. -/
def search (s : Slot) : List (List Char) → Except Error (Option Directive)
  | [] => .ok none
  | l :: ls => do
    match ← s.read l with
    | some d => return some d
    | none => s.search ls

end Slot

/-- Whether a line is a directive line. -/
def isDirectiveLine (line : List Char) : Bool :=
  (DirectiveLine.recognise? (Text.trim line)).isSome

namespace Directive

/-- Whether a line that sets slot `s` counts after the directives `found`. -/
def counts (found : List Directive) (s : Slot) : Bool :=
  s = .position || found.all (·.slot ≠ s)

/-- The directives found so far, and that of one more line if it holds one that counts. -/
def collectLine (found : List Directive) (line : List Char) : Except Error (List Directive) :=
  match DirectiveLine.recognise? (Text.trim line) with
  | none => .ok found
  | some l => if counts found l.slot then l.value.map (found ++ [·]) else .ok found

/-- The directives that count in a list of lines, in their order. -/
def collect (lines : List (List Char)) : Except Error (List Directive) :=
  lines.foldlM collectLine []

end Directive

/-- The presentation that a list of lines sets. -/
def Presentation.read (lines : List (List Char)) : Except Error Presentation :=
  (Directive.collect lines).map ofDirectives

end ErDiagram
