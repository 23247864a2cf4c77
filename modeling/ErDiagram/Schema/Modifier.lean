/-!
# Modifiers

A field may carry five modifiers, each at most once.  `Modifiers` is a set of them; a diagram that
was put together in memory may hold further names, which are kept in order and without repetition,
so that equal sets are equal values.

The five known modifiers are stored as five truth values, so there is one value for each set of them
and no order to be kept.
-/

set_option autoImplicit false

namespace ErDiagram

/-- A modifier of a field. -/
inductive Modifier where
  /-- A foreign key. -/
  | fk
  /-- Values may be missing. -/
  | null
  /-- A primary key. -/
  | pk
  /-- No value occurs twice. -/
  | unique
  /-- No value is negative. -/
  | unsigned
  deriving DecidableEq, Repr

namespace Modifier

/-- The word for a modifier. -/
def name : Modifier → String
  | fk => "fk"
  | null => "null"
  | pk => "pk"
  | unique => "unique"
  | unsigned => "unsigned"

/-- All modifiers, in the order of their names. -/
def all : List Modifier := [fk, null, pk, unique, unsigned]

/-- The modifier with a given name. -/
def ofName? (s : String) : Option Modifier := all.find? (·.name == s)

end Modifier

/-- A set of modifiers. -/
structure Modifiers where
  /-- Whether the field is a foreign key. -/
  fk : Bool := false
  /-- Whether values may be missing. -/
  null : Bool := false
  /-- Whether the field is a primary key. -/
  pk : Bool := false
  /-- Whether no value occurs twice. -/
  unique : Bool := false
  /-- Whether no value is negative. -/
  unsigned : Bool := false
  /-- Names that are no modifier of the text form, ascending and without repetition. -/
  other : List String := []
  deriving DecidableEq, Repr

namespace Modifiers

/-- Whether a set holds a modifier. -/
def contains (ms : Modifiers) : Modifier → Bool
  | .fk => ms.fk
  | .null => ms.null
  | .pk => ms.pk
  | .unique => ms.unique
  | .unsigned => ms.unsigned

/-- The set with one more modifier. -/
def insert (ms : Modifiers) : Modifier → Modifiers
  | .fk => { ms with fk := true }
  | .null => { ms with null := true }
  | .pk => { ms with pk := true }
  | .unique => { ms with unique := true }
  | .unsigned => { ms with unsigned := true }

@[simp]
theorem contains_insert (ms : Modifiers) (m n : Modifier) :
    (ms.insert m).contains n = (decide (m = n) || ms.contains n) := by
  cases m <;> cases n <;> simp [contains, insert]

/-- A name put into an ascending list, unless it is there. -/
def insertName (s : String) : List String → List String
  | [] => [s]
  | t :: ts => if s = t then t :: ts else if s < t then s :: t :: ts else t :: insertName s ts

/-- The set of modifiers with the given names. -/
def ofList (names : List String) : Modifiers :=
  names.foldl (fun ms s ↦
    match Modifier.ofName? s with
    | some m => ms.insert m
    | none => { ms with other := insertName s ms.other }) {}

/-- The names in a set, ascending. -/
def toList (ms : Modifiers) : List String :=
  ((Modifier.all.filter ms.contains).map Modifier.name).foldr insertName ms.other

end Modifiers
end ErDiagram
