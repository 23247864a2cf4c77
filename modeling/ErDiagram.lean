import ErDiagram.Main
import ErDiagram.Selection
import ErDiagram.Editor.Session
import ErDiagram.Proofs.Query.Scope
import ErDiagram.Proofs.Query.Capture
import ErDiagram.Proofs.Query.Condition
import ErDiagram.Proofs.Query.Listing
import ErDiagram.Proofs.Reference.Connected
import ErDiagram.Proofs.Diagram.Editing
import ErDiagram.Proofs.Diagram.Settling
import ErDiagram.Proofs.Diagram.Concatenation
import ErDiagram.Proofs.Diagram.Keeping
import ErDiagram.Proofs.Diagram.Faults
import ErDiagram.Proofs.Editor.Diagnostics
import ErDiagram.Proofs.Normalization.Rereading
import ErDiagram.Proofs.Reference.Forward
import ErDiagram.Proofs.Reference.Shortest
import ErDiagram.Proofs.Reference.Outline
import ErDiagram.Proofs.Selection.Mirror
import ErDiagram.Proofs.CommandLine.InPlace
import ErDiagram.Proofs.FieldLine.Declaration
import ErDiagram.Proofs.Diagram.Shape
import ErDiagram.Proofs.Normalization.Extraction
import ErDiagram.Proofs.FieldLine.Derivation
import ErDiagram.Proofs.FieldLine.Reordering
import ErDiagram.Proofs.Directive.LastWrite
import ErDiagram.Proofs.Presentation.Searching
import ErDiagram.Proofs.Selection.TextForm
import ErDiagram.Proofs.Reference.Index
import ErDiagram.Proofs.FieldLine.Respacing
import ErDiagram.Proofs.Diagram.Repetition
