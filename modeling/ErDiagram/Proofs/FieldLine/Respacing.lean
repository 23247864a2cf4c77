import ErDiagram.Proofs.FieldLine.Coverage
import ErDiagram.Proofs.FieldLine.Segment

/-!
# Tokens with single spaces between them

The texts of the tokens of a line, with a space between any two, are read as the same tokens again
(`Token.scan_respaced_iff`).  Comments, characters that start no token and the spaces of the line
are gone, so every token gets new neighbours; all the same it is read whole, because no token other
than a relation looks at its neighbours, and a relation finds a space or an end on both sides.

The one exception is the number `-0`.  In a line it is a number only because something stands close
to it; with spaces around it is a relation (`Lex.reread`).
-/

set_option autoImplicit false

namespace ErDiagram

open Lexeme

/-! ## Lexemes of a text

The tokens that are read from a line are spelled as their kinds ask, whatever stood around them.
This is all that is kept of the line. -/

/-- The kind and the text of a token. -/
def Token.lex (t : Token) : Lex := (t.kind, t.text)

/-- The lexemes of a text are its tokens without their places. -/
theorem Token.map_lex_scan (cs : List Char) : (scan cs).map lex = lexemes none cs := by
  have h := congrArg (List.map lex) (map_unplaced_ofPieces 0 (Piece.cut none cs))
  rw [List.map_map, List.map_map, show lex ∘ Lex.token = id from rfl, List.map_id] at h
  exact h

/-- Every lexeme of a text is spelled as its kind asks. -/
theorem spells_of_mem_lexemes {cs : List Char} {l : Lex} (h : l ∈ lexemes none cs) :
    Spells l.1 l.2.toList := by
  rw [← Token.map_lex_scan] at h
  obtain ⟨t, ht, rfl⟩ := List.mem_map.1 h
  obtain ⟨_, _, hmatches⟩ := Token.matches_of_mem_scan ht
  exact hmatches.spells

/-! ## Lexemes between spaces

A lexeme spelled as its kind asks is a word, and reads as itself between spaces.  `reread` builds
the one exception in, so that the statement for lists has no hypothesis about it. -/

/-- What a lexeme is read as between spaces: the number `-0` is a relation there. -/
def Lex.reread (l : Lex) : Lex := if l = (.number, "-0") then (.relation, "-0") else l

/-- A lexeme is a word, and read as itself but for the one exception. -/
theorem reads_reread {l : Lex} (h : Spells l.1 l.2.toList) : Reads l.2.toList [l.reread] := by
  rw [Lex.reread]
  split
  · next hl =>
    subst hl
    exact Segment.reads_relation (isRelation_iff.2 (by decide))
  · next hl =>
    have hreads := reads_of_spells h fun hkind htext ↦
      hl (Prod.ext hkind (String.toList_injective htext))
    rwa [String.ofList_toList] at hreads

theorem readsAll_reread {ls : List Lex} (h : ∀ l ∈ ls, Spells l.1 l.2.toList) :
    ReadsAll (ls.map (·.2.toList)) (ls.map Lex.reread) := by
  induction ls with
  | nil => exact .nil
  | cons l ls ih =>
    obtain ⟨hl, hls⟩ := List.forall_mem_cons.1 h
    exact .cons (reads_reread hl) (ih hls)

/-! ## The tokens of a line between spaces

Reading the words gives the lexemes one by one, each reread.  Since rereading changes only the
number `-0`, and changes the name of its kind, the tokens are the same just in case it does not
occur. -/

/-- The texts of tokens, with a space between any two. -/
def Token.respaced (ts : List Token) : List Char := spaced (ts.map (·.text.toList))

/-- Between spaces each token is read as one token, which differs from it in the one exception
alone. -/
theorem Token.map_lex_scan_respaced (cs : List Char) :
    (scan (respaced (scan cs))).map lex = (scan cs).map fun t ↦ t.lex.reread := by
  have hwords : (scan cs).map (·.text.toList) = (lexemes none cs).map (·.2.toList) := by
    rw [← map_lex_scan, List.map_map]
    rfl
  have hreads : ReadsAll ((lexemes none cs).map (·.2.toList)) ((lexemes none cs).map Lex.reread) :=
    readsAll_reread fun _ ↦ spells_of_mem_lexemes
  rw [map_lex_scan, respaced, hwords, lexemes_spaced hreads none rfl, ← map_lex_scan, List.map_map]
  rfl

/-- The exception shows in the name of the kind. -/
theorem Lex.name_reread_eq_iff (l : Lex) :
    (l.reread.1.name, l.reread.2) = (l.1.name, l.2) ↔ l ≠ (.number, "-0") := by
  rw [Lex.reread]
  split
  · next hl => simp [hl, TokenKind.name]
  · next hl => simp [hl]

/-- **Tokens survive single spaces between them**, unless the number `-0` is among them.  The texts
of the tokens of a text, joined by single spaces, are read as tokens of the same names and texts, in
the same order, just in case no token is the number `-0`. -/
theorem Token.scan_respaced_iff (cs : List Char) :
    (scan (respaced (scan cs))).map (fun t ↦ (t.kind.name, t.text)) =
        (scan cs).map (fun t ↦ (t.kind.name, t.text)) ↔
      ∀ t ∈ scan cs, ¬ (t.kind = .number ∧ t.text = "-0") := by
  have hagain : (scan (respaced (scan cs))).map (fun t ↦ (t.kind.name, t.text)) =
      (scan cs).map fun t ↦ (t.lex.reread.1.name, t.lex.reread.2) := by
    have h := congrArg (List.map fun l : Lex ↦ (l.1.name, l.2)) (map_lex_scan_respaced cs)
    rwa [List.map_map, List.map_map] at h
  rw [hagain, List.map_inj_left]
  refine forall₂_congr fun t _ ↦ ?_
  exact (Lex.name_reread_eq_iff t.lex).trans (not_congr Prod.ext_iff)

/-- Before a comma `-0` is a number, and before a space it is a relation. -/
example : (Token.scan "x default -0,".toList).map (·.kind) = [.word, .keyword .default, .number] ∧
    (Token.scan "x default -0".toList).map (·.kind) = [.word, .keyword .default, .relation] := by
  cbv

end ErDiagram
