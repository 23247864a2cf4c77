/-!
# The lines of a text

A line ends at a line break: any of eight control characters, the two separators U+2028 and U+2029,
or a carriage return together with the line feed after it.  A break ends a line and does not start
one, so a text that ends with a break has no empty line after it, and the empty text has no lines.

A text from a file has been through `withLineFeeds`, so that no carriage return is left in it.  The
other breaks stay, and they end lines as a line feed does; but they are not kept when lines are
joined again, which happens with line feeds only.
-/

set_option autoImplicit false

namespace ErDiagram.Text

/-- Whether a character breaks a line. -/
def isLineBreak (c : Char) : Bool :=
  let n := c.toNat
  (0x0A ≤ n && n ≤ 0x0D) || (0x1C ≤ n && n ≤ 0x1E) || n == 0x85 || n == 0x2028 || n == 0x2029

/-- The lines of a text, without their breaks. -/
def lines : List Char → List (List Char)
  | [] => []
  | '\r' :: '\n' :: cs => [] :: lines cs
  | c :: cs =>
    if isLineBreak c then [] :: lines cs
    else
      match lines cs with
      | [] => [[c]]
      | l :: ls => (c :: l) :: ls

/-- Lines set one below the other, with a line feed between any two. -/
def joinLines (ls : List (List Char)) : List Char := ['\n'].intercalate ls

/-- A text as it is read from a file: every carriage return, together with a line feed right after
it, becomes one line feed. -/
def withLineFeeds : List Char → List Char
  | [] => []
  | '\r' :: '\n' :: cs => '\n' :: withLineFeeds cs
  | c :: cs => (if c = '\r' then '\n' else c) :: withLineFeeds cs

@[simp]
theorem lines_nil : lines [] = [] := rfl

end ErDiagram.Text
