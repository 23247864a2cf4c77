import Mathlib.Data.List.Basic
import ErDiagram.Text.Literal

/-!
# When a text has a literal beginning

A literal beginning is found exactly in the texts that go on from it, and what is found behind it is
how they go on.  Every reader of a directive and of a relation is opened up by this one lemma: from
right to left it says that what was written is read again, from left to right that nothing else is.
-/

set_option autoImplicit false

namespace ErDiagram.Text

theorem literal?_eq_some_iff {s : String} {cs rest : List Char} :
    literal? s cs = some rest ↔ cs = s.toList ++ rest :=
  List.isPrefixOf?_eq_some_iff_append_eq.trans eq_comm

end ErDiagram.Text
