import ErDiagram.Schema.Modifier
import ErDiagram.Schema.Reference

/-!
# Tables and their fields

A table is a name with fields in the order of their declaration.  Nothing keeps two fields from
having one name, or two tables; a look-up by name finds the first.

`Table.duplicateNames` goes through the tables once and notes a name when it is met for the second
time.
-/

set_option autoImplicit false

namespace ErDiagram

/-- A field of a table. -/
structure Field where
  /-- The name of the field. -/
  name : String
  /-- Its type, as written. -/
  type : Option String := none
  /-- Its modifiers. -/
  modifiers : Modifiers := {}
  /-- What it refers to. -/
  reference : Option Reference := none
  /-- Its default value, as written. -/
  default : Option String := none
  deriving DecidableEq, Repr

/-- A table. -/
structure Table where
  /-- The name of the table. -/
  name : String
  /-- Its fields, in the order of declaration. -/
  fields : List Field := []
  deriving DecidableEq, Repr

namespace Table

/-- The first field with a given name. -/
def field? (t : Table) (name : String) : Option Field := t.fields.find? (·.name == name)

theorem field?_eq_none_iff {t : Table} {name : String} :
    t.field? name = none ↔ ∀ f ∈ t.fields, f.name ≠ name := by
  simp [field?]

/-- The fields that refer to a table. -/
def references (t : Table) : List Field := t.fields.filter (·.reference.isSome)

/-- The first table with a given name. -/
def find? (tables : List Table) (name : String) : Option Table := tables.find? (·.name == name)

theorem find?_eq_none_iff {tables : List Table} {name : String} :
    find? tables name = none ↔ name ∉ tables.map Table.name := by
  simp [find?]

/-- The names that more than one table has, in the order in which a second table is met. -/
def duplicateNames (tables : List Table) : List String :=
  (tables.foldl (fun (seen, twice) t ↦
    (t.name :: seen,
      if t.name ∈ seen ∧ t.name ∉ twice then twice ++ [t.name] else twice))
    (([] : List String), ([] : List String))).2

end Table
end ErDiagram
