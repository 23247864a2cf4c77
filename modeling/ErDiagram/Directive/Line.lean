import ErDiagram.Directive.Basic
import ErDiagram.Error
import ErDiagram.Text.Literal
import ErDiagram.Text.Word

/-!
# Directive lines

How a directive stands in the text.  Each is a line of its own that opens with `#` and one space:

* `# view: (-120, 40)`, two numbers with an optional fraction;
* `# zoom: 1.250`, a number with an optional fraction and no sign;
* `# text-bg: #fff`, a label and a number sign before a word;
* `# post (300, 80, #c0ffee)`, a word, two integers and, if the table has a color, a number sign
  before lower-case hexadecimal digits.

`DirectiveLine` is what such a line says, digit for digit; `Slot.recognise?` finds it.  Its *value*
is a `Directive`, which `DirectiveLine.value` computes or finds beyond the limits of numbers.

A line can look like a directive and yet have no value: it may hold more digits than can be read, or
coordinates of a view without a finite value nearest to them.  Whether it is a directive line is
decided by its form alone, so such a line is a fault of the text and not a comment.
-/

set_option autoImplicit false

namespace ErDiagram

open Number

/-- A number as its digits stand in a line. -/
structure Numeral where
  /-- Whether a minus sign stands in front. -/
  negative : Bool := false
  /-- The digits before the point. -/
  whole : List Char
  /-- The digits behind the point. -/
  fraction : List Char := []
  deriving DecidableEq, Repr

namespace Numeral

/-- The floating-point value nearest to a numeral. -/
def toBinary64 (n : Numeral) : Binary64 :=
  .ofQuotient n.negative (ofDigits (n.whole ++ n.fraction)) (10 ^ n.fraction.length)

/-- The integer before the point. -/
def toInt (n : Numeral) : Int := if n.negative then -(ofDigits n.whole : Int) else ofDigits n.whole

/-- The integer before the point, if it has not too many digits. -/
def integer (n : Numeral) : Except Error Int :=
  if digitLimit < n.whole.length then .error (.tooManyDigits n.whole.length) else .ok n.toInt

/-- The integer nearest to the floating-point value of a numeral, if that is finite. -/
def rounded (n : Numeral) : Except Error Int :=
  n.toBinary64.roundInt?.elim (.error .infiniteCoordinate) .ok

end Numeral

/-- What a directive line says. -/
inductive DirectiveLine where
  /-- The point in view. -/
  | view (x y : Numeral)
  /-- The zoom factor. -/
  | zoom (factor : Numeral)
  /-- The color for a role. -/
  | color (role : ColorRole) (value : List Char)
  /-- The position of a table. -/
  | position (table : List Char) (x y : Numeral) (color : Option (List Char))
  deriving DecidableEq, Repr

namespace DirectiveLine

/-- The slot that a line sets. -/
def slot : DirectiveLine → Slot
  | view _ _ => .view
  | zoom _ => .zoom
  | color role _ => .color role
  | position _ _ _ _ => .position

/-- The directive that a line stands for.  Coordinates of the view are rounded to integers and must
be finite; the zoom factor is rounded to thousandths; coordinates of a table are integers of at most
`digitLimit` digits.  Of two faulty coordinates the first counts. -/
def value : DirectiveLine → Except Error Directive
  | view x y => do
    let x ← x.rounded
    let y ← y.rounded
    return .view ⟨.int x, .int y⟩
  | zoom factor => return .zoom (.double factor.toBinary64.roundThousandths)
  | color role value => return .color role (String.ofList value)
  | position table x y tint => do
    let x ← x.integer
    let y ← y.integer
    return .position (String.ofList table) ⟨.int x, .int y, tint.map String.ofList⟩

end DirectiveLine

/-! ## Recognising lines

Each reader takes what it knows off the front of a text and hands on what follows, so that the parts
of a line are read one after the other; a line has to be used up in the end.  The readers are put
together from three: for a literal text, for a run of characters of some class, and for a number.

No blank is taken off here.  A line is trimmed before it is recognised, and within a line only the
blanks of its form may stand. -/

namespace Recognise

open Text

/-- A run of at least one character of a class, and what follows. -/
def run? (p : Char → Bool) (cs : List Char) : Option (List Char × List Char) :=
  let r := cs.takeWhile p
  if r.isEmpty then none else some (r, cs.dropWhile p)

/-- A number without a sign, with or without a fraction, and what follows. -/
def real? (cs : List Char) : Option (Numeral × List Char) := do
  let (whole, rest) ← run? Char.isDigit cs
  match (literal? "." rest).bind (run? Char.isDigit) with
  | some (fraction, rest) => return ({ whole, fraction }, rest)
  | none => return ({ whole }, rest)

/-- An integer without a sign, and what follows. -/
def natural? (cs : List Char) : Option (Numeral × List Char) := do
  let (whole, rest) ← run? Char.isDigit cs
  return ({ whole }, rest)

/-- A number that may have a minus sign in front. -/
def signed? (number? : List Char → Option (Numeral × List Char)) (cs : List Char) :
    Option (Numeral × List Char) :=
  match literal? "-" cs with
  | some rest => (number? rest).map fun (n, rest) ↦ ({ n with negative := true }, rest)
  | none => number? cs

/-- Whether a character is a lower-case hexadecimal digit. -/
def isHexDigit (c : Char) : Bool := c.isDigit || ('a' ≤ c && c ≤ 'f')

/-- The end of a position line, from the first coordinate on. -/
def place? (cs : List Char) : Option (Numeral × Numeral × Option (List Char)) := do
  let (x, rest) ← signed? natural? cs
  let rest ← literal? ", " rest
  let (y, rest) ← signed? natural? rest
  match literal? ", #" rest with
  | none => if rest = [')'] then return (x, y, none) else none
  | some rest =>
    let (color, rest) ← run? isHexDigit rest
    if rest = [')'] then return (x, y, some ('#' :: color)) else none

/-- A view line. -/
def view? (cs : List Char) : Option DirectiveLine := do
  let rest ← literal? "# view: (" cs
  let (x, rest) ← signed? real? rest
  let rest ← literal? ", " rest
  let (y, rest) ← signed? real? rest
  if rest = [')'] then return .view x y else none

/-- A zoom line. -/
def zoom? (cs : List Char) : Option DirectiveLine := do
  let rest ← literal? "# zoom: " cs
  let (factor, rest) ← real? rest
  if rest.isEmpty then return .zoom factor else none

/-- A color line for a role. -/
def color? (role : ColorRole) (cs : List Char) : Option DirectiveLine := do
  let rest ← literal? ("# " ++ role.label ++ ": #") cs
  if Text.isWord rest then return .color role ('#' :: rest) else none

/-- A position line of whatever table. -/
def position? (cs : List Char) : Option DirectiveLine := do
  let rest ← literal? "# " cs
  let (table, rest) ← run? Text.isWordChar rest
  let rest ← literal? " (" rest
  let (x, y, color) ← place? rest
  return .position table x y color

end Recognise

/-- What a whole line says for a slot, if it is a directive line of that slot. -/
def Slot.recognise? : Slot → List Char → Option DirectiveLine
  | view, cs => Recognise.view? cs
  | zoom, cs => Recognise.zoom? cs
  | color role, cs => Recognise.color? role cs
  | position, cs => Recognise.position? cs

/-- What a whole line says, if it is a directive line of any slot. -/
def DirectiveLine.recognise? (cs : List Char) : Option DirectiveLine :=
  Slot.all.findSome? (·.recognise? cs)

/-- Whether a whole line is a position line of the table with a given name.  Here the name is
compared as it is and need not be a word. -/
def isPositionLineOf (table : String) (cs : List Char) : Bool :=
  ((Text.literal? ("# " ++ table ++ " (") cs).bind Recognise.place?).isSome

/-! ## Writing lines

The line of a directive is written from its value alone and not checked against the form, as names
and colors may hold anything.  Whether it will be read again is found out by recognising it
(`Directive.readableLine`).  What can go wrong beforehand is that a number has no floating-point
value near it. -/

/-- A number in a line, with a given number of decimal places. -/
def Number.placed (places : Nat) (n : Number) : Except Error String :=
  match n.fixed? places with
  | some cs => .ok (String.ofList cs)
  | none => .error .integerTooLarge

namespace Directive

/-- The line for a directive.  Coordinates are written without decimal places and the zoom factor
with three; an empty color is left out of a position line. -/
def line : Directive → Except Error String
  | view p => do
    return "# view: (" ++ (← p.x.placed 0) ++ ", " ++ (← p.y.placed 0) ++ ")"
  | zoom factor => do return "# zoom: " ++ (← factor.placed 3)
  | color role value => return "# " ++ role.label ++ ": " ++ value
  | position table p => do
    let x ← p.x.placed 0
    let y ← p.y.placed 0
    let tint :=
      match p.color with
      | none => ""
      | some c => if c = "" then "" else ", " ++ c
    return "# " ++ table ++ " (" ++ x ++ ", " ++ y ++ tint ++ ")"

/-- The line for a directive, if it would be read as one of the same slot again: names and colors
may hold what no line can say. -/
def readableLine (d : Directive) : Except Error (Option String) := do
  let line ← d.line
  return if (d.slot.recognise? line.toList).isSome then some line else none

end Directive
end ErDiagram
