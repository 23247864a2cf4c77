import ErDiagram.Text.HiddenRanges

/-!
# Printable characters

A character is printable when a quoted text may show it as it stands.

For characters up to U+007F the answer is computed.  For all others it is read off the table in
`ErDiagram.Text.HiddenRanges`.
-/

set_option autoImplicit false

namespace ErDiagram.Text

/-- Whether a character has a visible form; of the separators only the plain space has. -/
def isPrintable (c : Char) : Bool :=
  if c.toNat < 0x80 then 0x20 ≤ c.toNat && c.toNat < 0x7F
  else !hiddenRanges.any fun r ↦ r.1 ≤ c.toNat && c.toNat ≤ r.2

end ErDiagram.Text
