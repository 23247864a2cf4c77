import ErDiagram.Number

/-!
# Presentation

How a diagram is drawn: the zoom factor, the point in view, six colors, and where each table stands.
The positions of tables form a map that remembers in which order its names came; putting a position
for a name that is there already replaces the old one in its place.

The map carries the proof that no name occurs twice.  Putting is the only way to change it, so the
positions of a presentation are those of a list of entries put one after the other
(`Positions.ofList`), and a name has the position that was put for it last, in the place where it
was put first.
-/

set_option autoImplicit false

namespace ErDiagram

/-- A point of the drawing plane. -/
structure Point where
  /-- The horizontal coordinate. -/
  x : Number
  /-- The vertical coordinate. -/
  y : Number
  deriving DecidableEq

/-- Where a table stands, and its color. -/
structure TablePosition where
  /-- The horizontal coordinate. -/
  x : Number
  /-- The vertical coordinate. -/
  y : Number
  /-- The color of the table, if it has one of its own. -/
  color : Option String := none
  deriving DecidableEq

/-- What one of the six colors is used for. -/
inductive ColorRole where
  /-- Behind the text pane. -/
  | textBackground
  /-- The letters of the text pane. -/
  | text
  /-- Behind the diagram. -/
  | diagramBackground
  /-- The letters of the diagram. -/
  | diagramText
  /-- Behind a table. -/
  | tableBackground
  /-- The letters of a table. -/
  | tableText
  deriving DecidableEq, Repr

/-- All color roles, in the order in which they are written. -/
def ColorRole.all : List ColorRole :=
  [textBackground, text, diagramBackground, diagramText, tableBackground, tableText]

/-! ## Positions of tables

A list of entries without repeated names.  Two maps can be compared in two ways: as data, where the
order of the names counts, and by what they say of each name (`Positions.same`). -/

/-- The positions of tables by name. -/
structure Positions where
  /-- Names and positions, in the order in which the names came. -/
  entries : List (String × TablePosition) := []
  /-- No name occurs twice. -/
  nodup : (entries.map Prod.fst).Nodup := by simp
  deriving DecidableEq

namespace Positions

/-- An entry put into a list of entries: in the place of the entry with its name, else last. -/
def putEntry (name : String) (p : TablePosition) :
    List (String × TablePosition) → List (String × TablePosition)
  | [] => [(name, p)]
  | e :: es => if e.1 = name then (name, p) :: es else e :: putEntry name p es

theorem map_fst_putEntry (name : String) (p : TablePosition)
    (es : List (String × TablePosition)) :
    (putEntry name p es).map Prod.fst =
      if name ∈ es.map Prod.fst then es.map Prod.fst else es.map Prod.fst ++ [name] := by
  induction es with
  | nil => rfl
  | cons e es ih =>
    rw [putEntry]
    by_cases he : e.1 = name
    · simp [he]
    · have : name ≠ e.1 := fun h ↦ he h.symm
      by_cases hm : name ∈ es.map Prod.fst <;> simp_all

theorem nodup_putEntry (name : String) (p : TablePosition) (es : List (String × TablePosition))
    (h : (es.map Prod.fst).Nodup) : ((putEntry name p es).map Prod.fst).Nodup := by
  rw [map_fst_putEntry]
  split
  · exact h
  · next hm =>
    rw [List.nodup_append]
    exact ⟨h, by simp, fun a ha b hb ↦ by rintro rfl; simp_all⟩

/-- A position put for a name. -/
def put (ps : Positions) (name : String) (p : TablePosition) : Positions :=
  ⟨putEntry name p ps.entries, nodup_putEntry name p ps.entries ps.nodup⟩

/-- The position of a name. -/
def get? (ps : Positions) (name : String) : Option TablePosition :=
  (ps.entries.find? (·.1 == name)).map Prod.snd

/-- The names that have a position, in order. -/
def names (ps : Positions) : List String := ps.entries.map Prod.fst

/-- The positions that result from putting entries one after the other. -/
def ofList (es : List (String × TablePosition)) : Positions :=
  es.foldl (fun ps e ↦ ps.put e.1 e.2) {}

/-- Whether two maps give every name the same position, whatever the order of their names. -/
def same (ps qs : Positions) : Bool :=
  ps.entries.length == qs.entries.length && ps.entries.all fun e ↦ qs.get? e.1 == some e.2

end Positions

/-! ## The whole presentation

Everything is optional: a text need not say anything of how its diagram is drawn. -/

/-- How a diagram is drawn. -/
structure Presentation where
  /-- The point in view. -/
  view : Option Point := none
  /-- The zoom factor. -/
  zoom : Option Number := none
  /-- The color behind the text pane. -/
  textBackground : Option String := none
  /-- The color of letters in the text pane. -/
  text : Option String := none
  /-- The color behind the diagram. -/
  diagramBackground : Option String := none
  /-- The color of letters in the diagram. -/
  diagramText : Option String := none
  /-- The color behind a table. -/
  tableBackground : Option String := none
  /-- The color of letters in a table. -/
  tableText : Option String := none
  /-- Where the tables stand. -/
  positions : Positions := {}
  deriving DecidableEq

namespace Presentation

/-- The color for a role. -/
def color (p : Presentation) : ColorRole → Option String
  | .textBackground => p.textBackground
  | .text => p.text
  | .diagramBackground => p.diagramBackground
  | .diagramText => p.diagramText
  | .tableBackground => p.tableBackground
  | .tableText => p.tableText

/-- Whether two presentations draw the same. -/
def same (p q : Presentation) : Bool :=
  { p with positions := {} } == { q with positions := {} } && p.positions.same q.positions

end Presentation
end ErDiagram
