/-!
# References

A field that is a foreign key refers to a field of another table, by a relation that says how many
rows may stand on either side.  In the text form a target is written `table.field`; without a field
it is the field `id` of that table, and a foreign key without any target refers to the table that
its own name suggests: `author_id` to `author`.

The order of the spellings matters to the reader of field lines, which takes the first one that
fits: no shorter one stands in front of a longer one that starts with it.
-/

set_option autoImplicit false

namespace ErDiagram

/-- The spellings of a relation, the longer ones first. -/
def relationSpellings : List String := [">-<", ">0-", "-0<", "0-0", ">-", "-<", "-0", "0-", "-"]

/-- The relation of a foreign key that names none: many rows refer to one. -/
def defaultRelation : String := ">-"

/-- The target of a foreign key. -/
structure Reference where
  /-- The table referred to. -/
  table : String
  /-- The field referred to. -/
  field : String := "id"
  /-- The relation between the two tables. -/
  relation : String := defaultRelation
  deriving DecidableEq, Repr

/-- The reference to a target written `table` or `table.field`. -/
def Reference.ofTarget (target relation : String) : Reference :=
  let table := target.toList.takeWhile (· ≠ '.')
  let field := (target.toList.dropWhile (· ≠ '.')).drop 1
  { table := String.ofList table
    field := if field.isEmpty then "id" else String.ofList field
    relation }

/-- A name without the ending `_id`. -/
def withoutIdSuffix (name : String) : String :=
  match name.toList.reverse with
  | 'd' :: 'i' :: '_' :: stem => String.ofList stem.reverse
  | _ => name

end ErDiagram
