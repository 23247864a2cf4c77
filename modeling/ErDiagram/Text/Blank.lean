/-!
# Blank characters

What counts as blank around a line, a field or a column: the white space of Unicode together with
the four separator controls U+001C to U+001F.  The zero-width space and the byte-order mark are
not blank.  `trim` takes blanks off both ends of a text, and off nothing else.

Every character that breaks a line is blank as well (see `ErDiagram.Text.Lines`), so a line without
blanks at its ends has no stray break there.
-/

set_option autoImplicit false

namespace ErDiagram.Text

/-- Whether a character is blank. -/
def isBlank (c : Char) : Bool :=
  let n := c.toNat
  (0x09 ≤ n && n ≤ 0x0D) || (0x1C ≤ n && n ≤ 0x20) || n == 0x85 || n == 0xA0 || n == 0x1680 ||
    (0x2000 ≤ n && n ≤ 0x200A) || n == 0x2028 || n == 0x2029 || n == 0x202F || n == 0x205F ||
    n == 0x3000

/-- Blanks taken off the front. -/
def trimStart (cs : List Char) : List Char := cs.dropWhile isBlank

/-- Blanks taken off the end. -/
def trimEnd (cs : List Char) : List Char := (cs.reverse.dropWhile isBlank).reverse

/-- Blanks taken off both ends. -/
def trim (cs : List Char) : List Char := trimEnd (trimStart cs)

/-- Whether nothing but blanks stands in a text. -/
def isBlankText (cs : List Char) : Bool := cs.all isBlank

@[simp]
theorem trim_nil : trim [] = [] := rfl

end ErDiagram.Text
