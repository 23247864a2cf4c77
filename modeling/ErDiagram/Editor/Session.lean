import ErDiagram.Editor.Diagnostics
import ErDiagram.Editor.Hover

/-!
# Editing sessions

A session holds the text of one document while it is edited.  A new text is taken over even if its
diagnostics fail.

Requests do not depend on one another except through the text.  So the state of a session is the
text and nothing else, and each answer is computed from it anew.
-/

set_option autoImplicit false

namespace ErDiagram.Editor

/-- The state of an editing session. -/
structure Session where
  /-- The text of the document. -/
  text : String := ""
  deriving DecidableEq, Repr

/-- What an editor asks for. -/
inductive Request where
  /-- The document has a new text. -/
  | replace (text : String)
  /-- What can be put in at a place? -/
  | complete (line column : Int)
  /-- What is at a place? -/
  | describe (line column : Int)
  deriving DecidableEq, Repr

/-- What an editor is told. -/
inductive Response where
  /-- The diagnostics of the document. -/
  | diagnostics (ds : List Diagnostic)
  /-- What can be put in. -/
  | suggestions (ss : List Suggestion)
  /-- What is shown, as marked-up text. -/
  | description (text : Option String)
  deriving DecidableEq, Repr

/-- A session after a request, and the answer to it. -/
def Session.answer (s : Session) : Request → Session × Except Error Response
  | .replace text => (⟨text⟩, (Editor.diagnostics text).map .diagnostics)
  | .complete line column => (s, (completion s.text line column).map .suggestions)
  | .describe line column => (s, (hover s.text line column).map .description)

end ErDiagram.Editor
