import ErDiagram.Editor.Completion

/-!
# Hovering

What an editor shows about the word at a place in the text of a diagram: the fields of the table of
that name, or else what the keyword means.

A name of a table comes before a keyword.  Keywords are met in upper and in lower case, names of
tables as they are spelled.
-/

set_option autoImplicit false

namespace ErDiagram.Editor

/-- The small letter for a character, as far as a keyword can hold it: the letters A to Z, and the
Kelvin sign, whose small letter is `k`. -/
def smallLetter (c : Char) : Char := if c.toNat = 0x212A then 'k' else c.toLower

/-- The word at a place of a line; there is none before the line or behind it. -/
def wordAt (line : List Char) (column : Int) : List Char :=
  if column < 0 then [] else Text.wordAt line column.toNat

/-- A table as marked-up text. -/
def tableMarkup (t : Table) : String :=
  "**" ++ t.name ++ "**\n\n```\n" ++ "\n".intercalate (t.fields.map Field.text) ++ "\n```"

/-- What a word means as a keyword, as marked-up text. -/
def keywordMarkup? (word : List Char) : Option String :=
  (keywords.find? fun k ↦ k.1.toList == word.map smallLetter).map fun (k, detail) ↦
    "**" ++ k ++ "**: " ++ detail

/-- What is shown at a place of a text, if anything. -/
def hover (text : String) (line column : Int) : Except Error (Option String) := do
  match ← atPlace? (Text.lines text.toList) line with
  | none => return none
  | some current =>
    let word := wordAt current column
    if word.isEmpty then return none
    let diagram ← Diagram.ofText text
    return ((diagram.table? (String.ofList word)).map tableMarkup).or (keywordMarkup? word)

end ErDiagram.Editor
