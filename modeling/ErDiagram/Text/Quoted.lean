import ErDiagram.Text.Printable

/-!
# Quoted text in messages

Messages show a text between quotation marks, with what cannot be seen written as an escape.  The
mark is the single one, unless the text holds a single mark and no double one.  A backslash, the
mark itself, the line feed, the carriage return and the tab are escaped by a backslash; any other
character without a visible form by its code point in two, four or eight lower-case hexadecimal
digits.

Nothing is lost: each character is shown by itself or by one escape that names it.  Such texts occur
in messages only, and no reader takes them apart again.
-/

set_option autoImplicit false

namespace ErDiagram.Text

/-- The lowest `n` hexadecimal digits of a number, in lower case. -/
def hexDigits : Nat → Nat → List Char
  | 0, _ => []
  | n + 1, v => hexDigits n (v / 16) ++ [Nat.digitChar (v % 16)]

/-- One character of a text quoted between marks `mark`. -/
def escape (mark c : Char) : List Char :=
  if c = '\\' ∨ c = mark then ['\\', c]
  else if c = '\n' then ['\\', 'n']
  else if c = '\r' then ['\\', 'r']
  else if c = '\t' then ['\\', 't']
  else if isPrintable c then [c]
  else if c.toNat < 0x100 then '\\' :: 'x' :: hexDigits 2 c.toNat
  else if c.toNat < 0x10000 then '\\' :: 'u' :: hexDigits 4 c.toNat
  else '\\' :: 'U' :: hexDigits 8 c.toNat

/-- The mark a text is quoted with. -/
def quotationMark (cs : List Char) : Char :=
  if cs.contains '\'' && !cs.contains '"' then '"' else '\''

/-- A text between quotation marks. -/
def quoted (s : String) : String :=
  let mark := quotationMark s.toList
  String.ofList (mark :: s.toList.flatMap (escape mark) ++ [mark])

end ErDiagram.Text
