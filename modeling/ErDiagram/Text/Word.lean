import ErDiagram.Text.WordRanges

/-!
# Words

A word is a run of letters, numbers and underscores.  `wordAt` is the word that a cursor stands in.

Words are what the name of a table has to be in the line that places it, and what an editor looks up
under its cursor.  For characters up to U+007F no table is asked, so the words of most texts are
decided without it.
-/

set_option autoImplicit false

namespace ErDiagram.Text

/-- Whether a character may stand in a word: a letter or number of any script, or `_`. -/
def isWordChar (c : Char) : Bool :=
  if c.toNat < 0x80 then c.isAlphanum || c == '_'
  else wordRanges.any fun r ↦ r.1 ≤ c.toNat && c.toNat ≤ r.2

/-- Whether a text is one word. -/
def isWord (cs : List Char) : Bool := !cs.isEmpty && cs.all isWordChar

/-- The word around position `i` of a line, or nothing when no word character stands there. -/
def wordAt (line : List Char) (i : Nat) : List Char :=
  match line.drop i with
  | [] => []
  | c :: after =>
    if isWordChar c then
      ((line.take i).reverse.takeWhile isWordChar).reverse ++ c :: after.takeWhile isWordChar
    else []

end ErDiagram.Text
