import ErDiagram.FieldLine.Item
import ErDiagram.Schema.Table

/-!
# The field that a field line declares

The items of a field line are taken one after the other into a *draft* of the field.  The first type
counts, and the last default value.  A relation replaces what the field refers to, even by nothing;
`fk` replaces it only if a target follows.  A foreign key that refers to nothing in the end refers
to the field `id` of the table that its name suggests.

That the draft is filled from left to right, one `Draft.add` per item, is what the theorems about a
field line rest on.  What a line declares is a fold, so an invariant of drafts that `add` keeps
holds of every field that is read, and two items that commute in every draft may change places in
every line.  Only `Draft.field` looks at the draft as a whole, for the reference that the name of
the field suggests.
-/

set_option autoImplicit false

namespace ErDiagram

/-- What the items seen so far say about a field. -/
structure Draft where
  /-- The type. -/
  type : Option String := none
  /-- The modifiers. -/
  modifiers : Modifiers := {}
  /-- What the field refers to. -/
  reference : Option Reference := none
  /-- The default value. -/
  default : Option String := none
  /-- The relation that a reference suggested by the name will have. -/
  relation : String := defaultRelation
  deriving DecidableEq, Repr

namespace Draft

/-- A draft with one more item. -/
def add (d : Draft) : Item → Draft
  | .modifier m => { d with modifiers := d.modifiers.insert m }
  | .notNull => { d with modifiers := { d.modifiers with null := false } }
  | .type text => { d with type := d.type.or (some text) }
  | .default value => { d with default := some value }
  | .foreignKey target =>
    { d with modifiers := d.modifiers.insert .fk, reference := target.or d.reference }
  | .relation spelling target =>
    { d with modifiers := d.modifiers.insert .fk, reference := target, relation := spelling }
  | .ignored _ => d

/-- The field that a draft describes, under a given name. -/
def field (d : Draft) (name : String) : Field where
  name
  type := d.type
  modifiers := d.modifiers
  reference :=
    if d.modifiers.fk && d.reference.isNone then
      some { table := withoutIdSuffix name, relation := d.relation }
    else d.reference
  default := d.default

end Draft

namespace FieldLine

/-- The field that a field line declares. -/
def field (l : FieldLine) : Field := (l.items.foldl Draft.add {}).field l.name

/-- The texts of the items without effect: those without a meaning, and every type but the first.
`typed` says whether a type came before. -/
def unused (typed : Bool) : List Item → List String
  | [] => []
  | .type text :: items => (if typed then [text] else []) ++ unused true items
  | .ignored text :: items => text :: unused typed items
  | _ :: items => unused typed items

end FieldLine

/-- The field that a line of text declares, if it starts with a name. -/
def Field.ofText? (text : List Char) : Option Field := (FieldLine.ofText? text).map FieldLine.field

end ErDiagram
