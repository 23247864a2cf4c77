import ErDiagram.Presentation

/-!
# Directives

A directive is one piece of presentation, as a single line of the text sets it.  Its *slot* says
which piece: the view, the zoom factor, one of the six colors, or the position of a table.  All
slots but the last hold one value; positions are held by table.

A presentation and a list of directives are made from each other.  Of several directives for a slot
with one value the first counts, of several positions of one table the last
(`Presentation.ofDirectives`); the directives of a presentation come in a fixed order, with the
positions in the order of the tables (`Presentation.directives`).  That reading and writing go by
way of directives has the advantage that each can be dealt with line by line.
-/

set_option autoImplicit false

namespace ErDiagram

/-- Which piece of presentation a directive sets. -/
inductive Slot where
  /-- The point in view. -/
  | view
  /-- The zoom factor. -/
  | zoom
  /-- The color for a role. -/
  | color (role : ColorRole)
  /-- The position of a table. -/
  | position
  deriving DecidableEq, Repr

/-! ## Directives

A directive is what one line says once its numbers are known. -/

/-- One piece of presentation. -/
inductive Directive where
  /-- The point in view. -/
  | view (point : Point)
  /-- The zoom factor. -/
  | zoom (factor : Number)
  /-- The color for a role. -/
  | color (role : ColorRole) (value : String)
  /-- The position of a table. -/
  | position (table : String) (place : TablePosition)
  deriving DecidableEq

/-- What a color is called in its line. -/
def ColorRole.label : ColorRole → String
  | textBackground => "text-bg"
  | text => "text-color"
  | diagramBackground => "diagram-bg"
  | diagramText => "diagram-text"
  | tableBackground => "table-bg"
  | tableText => "table-text"

namespace Slot

/-- The slots that hold one value, in the order in which they are written. -/
def scalars : List Slot := .view :: .zoom :: ColorRole.all.map .color

/-- All slots. -/
def all : List Slot := scalars ++ [.position]

/-- The name of a slot in messages. -/
def name : Slot → String
  | view => "view"
  | zoom => "zoom"
  | color .textBackground => "text_bg_color"
  | color .text => "text_color"
  | color .diagramBackground => "diagram_bg_color"
  | color .diagramText => "diagram_text_color"
  | color .tableBackground => "table_bg_color"
  | color .tableText => "table_text_color"
  | position => "table_position"

/-- The slot with a given name. -/
def ofName? (s : String) : Option Slot := all.find? (·.name == s)

end Slot

namespace Directive

/-- The slot that a directive sets. -/
def slot : Directive → Slot
  | view _ => .view
  | zoom _ => .zoom
  | color role _ => .color role
  | position _ _ => .position

/-- The point in view that a directive sets. -/
def viewValue? : Directive → Option Point
  | view p => some p
  | _ => none

/-- The zoom factor that a directive sets. -/
def zoomValue? : Directive → Option Number
  | zoom z => some z
  | _ => none

/-- The color that a directive sets for a role. -/
def colorValue? (role : ColorRole) : Directive → Option String
  | color r value => if r = role then some value else none
  | _ => none

/-- The position that a directive sets, with the name of its table. -/
def positionValue? : Directive → Option (String × TablePosition)
  | position table place => some (table, place)
  | _ => none

end Directive

namespace Presentation

/-- The presentation that directives make: of each slot the first value, and of each table the last
position. -/
def ofDirectives (ds : List Directive) : Presentation where
  view := ds.findSome? (·.viewValue?)
  zoom := ds.findSome? (·.zoomValue?)
  textBackground := ds.findSome? (·.colorValue? .textBackground)
  text := ds.findSome? (·.colorValue? .text)
  diagramBackground := ds.findSome? (·.colorValue? .diagramBackground)
  diagramText := ds.findSome? (·.colorValue? .diagramText)
  tableBackground := ds.findSome? (·.colorValue? .tableBackground)
  tableText := ds.findSome? (·.colorValue? .tableText)
  positions := .ofList (ds.filterMap (·.positionValue?))

/-- The directives that make a presentation: the slots in their order, then the positions, those of
the given tables first and in the order of the tables. -/
def directives (p : Presentation) (tables : List String) : List Directive :=
  let placed := tables.filter (· ∈ p.positions.names)
  let rest := p.positions.names.filter (· ∉ placed)
  (p.view.map Directive.view).toList ++ (p.zoom.map Directive.zoom).toList ++
    ColorRole.all.filterMap (fun role ↦ (p.color role).map (Directive.color role)) ++
    (placed ++ rest).eraseDups.filterMap fun t ↦ (p.positions.get? t).map (Directive.position t)

end Presentation
end ErDiagram
