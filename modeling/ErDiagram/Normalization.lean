import ErDiagram.Diagram.Writing

/-!
# Moving a repeated field into a lookup table

A field that several tables declare can become a table of its own, the *lookup table*: it holds an
`id` and the field, and every other table that declared the field refers to it instead, by a field
named after the lookup table with the ending `_id`.  A lookup table that exists already is used, and
gets the field if it lacks it; a new one stands behind the last table that declared the field.

Moving a field goes in two steps.  First there has to be a lookup table with the field in it, and
then each table is treated by itself.  The names need not be in order for this: of several tables
named like the lookup table the first one is it, and the others are left alone as well; a table may
declare the field more than once, and each declaration is taken away.
-/

set_option autoImplicit false

namespace ErDiagram

namespace Table

/-- Whether a table is not the lookup table and declares the field. -/
def isAffected (t : Table) (field lookup : String) : Bool :=
  t.name != lookup && (t.field? field).isSome

/-- The field that refers to a lookup table. -/
def lookupReference (lookup : String) : Field where
  name := lookup ++ "_id"
  modifiers := { fk := true }
  reference := some { table := lookup }

/-- A table that refers to the lookup table in place of a field.  The reference may be missing where
the field might be.  If the table has a field of that name, the field is only taken away. -/
def referToLookup (t : Table) (field lookup : String) : Table :=
  let reference := lookupReference lookup
  let present := (t.field? reference.name).isSome
  { t with
    fields := t.fields.flatMap fun f ↦
      if f.name ≠ field then [f]
      else if present then []
      else [{ reference with modifiers := { fk := true, null := f.modifiers.null } }] }

/-- A table put behind the last of those with a property. -/
def insertAfterLast (p : Table → Bool) (new : Table) : List Table → List Table
  | [] => [new]
  | t :: ts => if ts.any p then t :: insertAfterLast p new ts else t :: new :: ts

/-- The first table with a given name gets a field, unless it has one of that name. -/
def extendFirst (name : String) (f : Field) : List Table → List Table
  | [] => []
  | t :: ts =>
    if t.name = name then
      (if (t.field? f.name).isSome then t else { t with fields := t.fields ++ [f] }) :: ts
    else t :: extendFirst name f ts

/-- A new lookup table. -/
def newLookup (lookup : String) (value : Field) : Table :=
  ⟨lookup, [{ name := "id", modifiers := { pk := true } }, value]⟩

/-- Tables with a lookup table that holds a field. -/
def withLookup (field lookup : String) (value : Field) (tables : List Table) : List Table :=
  if (find? tables lookup).isSome then extendFirst lookup value tables
  else insertAfterLast (·.isAffected field lookup) (newLookup lookup value) tables

end Table

namespace Diagram

/-- The name of the lookup table for a field, where an empty name counts as none. -/
def lookupName (field : String) (lookup : Option String) : String :=
  match lookup with
  | none => field
  | some n => if n = "" then field else n

/-- The first table that would refer to the lookup table in place of a field. -/
def affected? (d : Diagram) (field : String) (lookup : Option String) : Option Table :=
  d.tables.find? (·.isAffected field (lookupName field lookup))

/-- A diagram with a field moved into a lookup table, which is named like the field unless it is
given a name.  If no other table declares the field, nothing changes. -/
def normalize (d : Diagram) (field : String) (lookup : Option String) : Diagram :=
  let name := lookupName field lookup
  match d.affected? field lookup with
  | none => d
  | some source =>
    let value : Field := { name := field, type := (source.field? field).bind Field.type }
    { d with
      tables := (Table.withLookup field name value d.tables).map fun t ↦
        if t.isAffected field name then t.referToLookup field name else t }

/-- A text in canonical form, with a field moved into a lookup table. -/
def normalizeText (text field : String) (lookup : Option String) : Except Error String := do
  ((← ofText text).normalize field lookup).text true

end Diagram
end ErDiagram
