import ErDiagram.Text.Quoted

/-!
# What can go wrong

Reading a diagram drops what it does not understand, so few things fail.  Each of them is a cause
here, and `Error.message` holds the wording of all of them.

Most functions are total.  Where one can fail, its result is `Except Error`, and which of these
errors it can have, and when, is stated in theorems about it; for the text of a diagram that is
`Diagram.fails_iff`.
-/

set_option autoImplicit false

namespace ErDiagram

/-- Why an operation has no result. -/
inductive Error where
  /-- A column is not written as a table and a field with a point between them. -/
  | malformedColumn (text : String)
  /-- A coordinate has more digits than an integer may be read from. -/
  | tooManyDigits (count : Nat)
  /-- A coordinate of the view exceeds every floating-point value. -/
  | infiniteCoordinate
  /-- An integer to be written exceeds every floating-point value. -/
  | integerTooLarge
  /-- A position counted from the end of a list lies before its start. -/
  | outOfRange
  /-- A file to be read is a directory. -/
  | isDirectory (path : String)
  deriving DecidableEq, Repr

/-- The most digits that an integer is read from. -/
def digitLimit : Nat := 4300

/-- The wording of an error. -/
def Error.message : Error → String
  | malformedColumn text => "Expected 'table.field', got " ++ Text.quoted text
  | tooManyDigits count =>
    "Exceeds the limit (" ++ toString digitLimit ++
      " digits) for integer string conversion: value has " ++ toString count ++
      " digits; use sys.set_int_max_str_digits() to increase the limit"
  | infiniteCoordinate => "cannot convert float infinity to integer"
  | integerTooLarge => "int too large to convert to float"
  | outOfRange => "list index out of range"
  | isDirectory path => "[Errno 21] Is a directory: " ++ Text.quoted path

end ErDiagram
