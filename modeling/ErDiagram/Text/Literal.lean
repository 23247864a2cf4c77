/-!
# Literal beginnings

`literal?` takes a fixed text off the front of another.  The program is built without a library
below it, so only the half of what `literal?` does that the program itself needs is shown here:
nothing is lost in the cut (`append_of_literal?`), so the cutting of a text into tokens comes to an
end.  When a text has a literal beginning at all is said in `ErDiagram.Proofs.Text.Literal`, with
the library's lemma.
-/

set_option autoImplicit false

namespace ErDiagram.Text

/-- The text behind a literal beginning. -/
def literal? (s : String) (cs : List Char) : Option (List Char) := s.toList.isPrefixOf? cs

theorem append_of_literal? {s : String} {cs rest : List Char} (h : literal? s cs = some rest) :
    s.toList ++ rest = cs := by
  rw [literal?] at h
  generalize s.toList = l at h ⊢
  induction l generalizing cs with
  | nil => exact (Option.some.inj h).symm
  | cons a l ih =>
    cases cs with
    | nil => exact nomatch (show none = some rest from h)
    | cons b cs =>
      have hstep : (if a == b then l.isPrefixOf? cs else none) = some rest := h
      split at hstep
      · next hab => rw [List.cons_append, ih hstep, eq_of_beq hab]
      · cases hstep

end ErDiagram.Text
