import ErDiagram.FieldLine.Field
import ErDiagram.Proofs.FieldLine.Tokens

/-!
# Scanning words with spaces between them

The grammar reads the kinds and texts of tokens and never their offsets, so a line counts as its
*lexemes* (`FieldLine.ofText?_eq`).  A word `Reads` as certain lexemes when it does so wherever a
space or nothing stands around it; words with a space between any two read one after the other
(`lexemes_spaced`).

The condition that a word reads the same wherever a space or nothing stands around it is what makes
the words independent of each other.  With it `ReadsAll` is built from the words alone, and the line
does not have to be read from the left with all its context.
-/

set_option autoImplicit false

namespace ErDiagram

open Lexeme Text

/-! ## Lexemes

A lexeme is a token without its place.  `Piece.lexemes` repeats `Token.ofPieces` without counting
the characters, so a lemma about lexemes has no offset to carry through an induction. -/

/-- The kind and the text of a token. -/
abbrev Lex := TokenKind × String

/-- A token of a given kind and text, placed at the start of a line. -/
def Lex.token (l : Lex) : Token := ⟨l.1, l.2, 0⟩

/-- A token moved to the start of a line. -/
def Token.unplaced (t : Token) : Token := { t with offset := 0 }

/-- The tokens among pieces, without their places. -/
def Piece.lexemes : List Piece → List Lex
  | [] => []
  | p :: ps =>
    match p.kind with
    | .token kind => (kind, String.ofList p.text) :: lexemes ps
    | _ => lexemes ps

theorem Token.map_unplaced_ofPieces (offset : Nat) (ps : List Piece) :
    (ofPieces offset ps).map unplaced = (Piece.lexemes ps).map Lex.token := by
  induction ps generalizing offset with
  | nil => rfl
  | cons p ps ih =>
    rw [ofPieces.eq_def, Piece.lexemes.eq_def]
    cases hp : p.kind with
    | token kind =>
      simp only [hp, List.map_cons, ih]
      rfl
    | blank | comment | stray => simp only [hp, ih]

/-- The lexemes of a text that stands behind the character `before`. -/
def lexemes (before : Option Char) (cs : List Char) : List Lex :=
  Piece.lexemes (Piece.cut before cs)

/-! ## The grammar does not look at places

Moving all tokens to the start of the line commutes with every step of the grammar, from the operand
that an item takes up to the list of items.  So the items of a line are those of its lexemes, and
from here on nothing mentions an offset. -/

namespace Item

theorem operand?_map_unplaced (ok : TokenKind → Bool) (ts : List Token) :
    operand? ok (ts.map Token.unplaced) =
      (operand? ok ts).map fun (t, us) ↦ (t.unplaced, us.map Token.unplaced) := by
  cases ts with
  | nil => rfl
  | cons t ts =>
    rw [List.map_cons, operand?, operand?]
    by_cases hok : ok t.kind = true
    · rw [if_pos hok]
      exact if_pos hok
    · rw [if_neg hok]
      exact if_neg hok

theorem withArguments_map_unplaced (text : String) (ts : List Token) :
    withArguments text (ts.map Token.unplaced) =
      ((withArguments text ts).1, (withArguments text ts).2.map Token.unplaced) := by
  rw [withArguments, withArguments, operand?_map_unplaced]
  cases operand? (· = .arguments) ts <;> rfl

theorem first_map_unplaced (t : Token) (ts : List Token) :
    first t.unplaced (ts.map Token.unplaced) =
      ((first t ts).1, (first t ts).2.map Token.unplaced) := by
  rw [first.eq_def, first.eq_def]
  have hkind : t.unplaced.kind = t.kind := rfl
  rw [hkind]
  cases t.kind with
  | word => simp only [withArguments_map_unplaced]; rfl
  | relation =>
    simp only [operand?_map_unplaced]
    cases operand? TokenKind.isReferable ts <;> rfl
  | keyword k =>
    cases k with
    | fk =>
      simp only [operand?_map_unplaced]
      cases operand? (· = .target) ts <;> rfl
    | default =>
      simp only [operand?_map_unplaced]
      cases operand? TokenKind.isValue ts with
      | none => rfl
      | some o => simp only [Option.map_some, withArguments_map_unplaced]; rfl
    | not =>
      simp only [operand?_map_unplaced]
      cases operand? (· = .keyword .null) ts <;> rfl
    | pk | unique | unsigned | null => rfl
  | target | number | quotation | arguments | point => rfl

theorem ofTokens_map_unplaced (ts : List Token) :
    ofTokens (ts.map Token.unplaced) = ofTokens ts := by
  fun_induction ofTokens ts with
  | case1 => simp [ofTokens]
  | case2 t ts ih => rw [List.map_cons, ofTokens, first_map_unplaced, ih]

end Item

/-- The items that lexemes make up. -/
def Item.ofLexemes (ls : List Lex) : List Item := ofTokens (ls.map Lex.token)

/-- A field line is made up by the lexemes of a text. -/
theorem FieldLine.ofText?_eq (cs : List Char) :
    ofText? cs = match lexemes none cs with
      | [] => none
      | l :: ls => if l.1.isName then some ⟨l.2, Item.ofLexemes ls⟩ else none := by
  have hmap := Token.map_unplaced_ofPieces 0 (Piece.cut none cs)
  rw [← Token.scan, ← lexemes] at hmap
  rw [ofText?]
  cases hscan : Token.scan cs with
  | nil =>
    rw [hscan, List.map_nil, eq_comm, List.map_eq_nil_iff] at hmap
    rw [hmap]
    rfl
  | cons t ts =>
    rw [hscan, List.map_cons] at hmap
    obtain ⟨l, ls, hl, hlt, hts⟩ := List.map_eq_cons_iff.1 hmap.symm
    have hkind : l.1 = t.kind := congrArg Token.kind hlt
    have htext : l.2 = t.text := congrArg Token.text hlt
    have hitems : Item.ofLexemes ls = Item.ofTokens ts := by
      rw [Item.ofLexemes, hts, Item.ofTokens_map_unplaced]
    rw [hl, ofTokens?]
    simp only [hkind, htext, hitems]

/-! ## Words that read as lexemes

Spaces and stray characters are passed over and a token is read off, each in one step.  A word then
`Reads` as lexemes if its own characters give them in front of whatever the text behind it gives.
The text behind starts with a space or is empty, which is what `spaced` puts there, and before the
word stands something that lets a relation stand, for which a space will do. -/

theorem lexemes_nil (before : Option Char) : lexemes before [] = [] := by
  rw [lexemes, Piece.cut, Piece.lexemes]

/-- A space is passed over. -/
theorem lexemes_space (before : Option Char) (cs : List Char) :
    lexemes before (' ' :: cs) = lexemes (some ' ') cs := by
  rw [lexemes, Piece.cut, Piece.first, if_pos (.inl rfl)]
  rfl

/-- A token is read, and then the text behind it. -/
theorem lexemes_token {before : Option Char} {kind : TokenKind} {w rest : List Char}
    (h : token? before (w ++ rest) = some (kind, w, rest)) :
    lexemes before (w ++ rest) =
      (kind, String.ofList w) :: lexemes w.getLast? rest := by
  have ⟨hne, htrimmed⟩ := (spells_of_token? h).isTrimmed
  obtain ⟨c, cs, rfl⟩ := List.exists_cons_of_ne_nil hne
  have hc : isBlank c = false := htrimmed.1 c rfl
  have hspace : ¬ (c = ' ' ∨ c = '\t') := by
    rintro (rfl | rfl) <;> exact absurd hc (by decide)
  rw [List.cons_append] at h ⊢
  rw [lexemes, Piece.cut, Piece.first, if_neg hspace, h]
  rfl

/-- A character that starts no token is passed over. -/
theorem lexemes_stray {before : Option Char} {c : Char} {cs : List Char}
    (hc : c ≠ ' ' ∧ c ≠ '\t' ∧ c ≠ '#') (h : token? before (c :: cs) = none) :
    lexemes before (c :: cs) = lexemes (some c) cs := by
  rw [lexemes, Piece.cut, Piece.first, if_neg (not_or.2 ⟨hc.1, hc.2.1⟩), h]
  simp only [if_neg hc.2.2]
  rfl

/-- A word is read as certain lexemes where a relation may stand, with a space or nothing behind. -/
def Reads (w : List Char) (ls : List Lex) : Prop :=
  ∀ before rest, mayPrecedeRelation before = true → (∀ c ∈ rest.head?, c = ' ') →
    lexemes before (w ++ rest) = ls ++ lexemes w.getLast? rest

/-- Words with a space between any two. -/
def spaced (ws : List (List Char)) : List Char := [' '].intercalate ws

/-- Word by word, words are read as certain lexemes. -/
inductive ReadsAll : List (List Char) → List Lex → Prop
  | nil : ReadsAll [] []
  | cons {w : List Char} {ws : List (List Char)} {ls ls' : List Lex} (h : Reads w ls)
      (hs : ReadsAll ws ls') : ReadsAll (w :: ws) (ls ++ ls')

namespace ReadsAll

variable {w v : List Char} {ws ws' : List (List Char)} {ls ls' : List Lex}

theorem append (h : ReadsAll ws ls) (h' : ReadsAll ws' ls') :
    ReadsAll (ws ++ ws') (ls ++ ls') := by
  induction h with
  | nil => exact h'
  | cons hw _ ih =>
    rw [List.append_assoc]
    exact .cons hw ih

theorem word (h : Reads w ls) : ReadsAll [w] ls := by
  have := ReadsAll.cons h .nil
  rwa [List.append_nil] at this

theorem pair (h : Reads w ls) (h' : Reads v ls') : ReadsAll [w, v] (ls ++ ls') :=
  .cons h (word h')

end ReadsAll

theorem spaced_cons_cons (w v : List Char) (vs : List (List Char)) :
    spaced (w :: v :: vs) = w ++ ' ' :: spaced (v :: vs) := by simp [spaced, List.intercalate]

theorem spaced_singleton (w : List Char) : spaced [w] = w := by simp [spaced, List.intercalate]

theorem isLine_spaced {ws : List (List Char)} (hne : ws ≠ []) (h : ∀ w ∈ ws, IsLine w) :
    IsLine (spaced ws) := by
  induction ws with
  | nil => exact absurd rfl hne
  | cons w ws ih =>
    obtain ⟨hw, hws⟩ := List.forall_mem_cons.1 h
    cases ws with
    | nil => rwa [spaced_singleton]
    | cons v vs =>
      rw [spaced_cons_cons, ← List.singleton_append, ← List.append_assoc]
      exact hw.append (by simp [IsUnbroken, isLineBreak]) (ih (by simp) hws)

theorem isUnbroken_spaced {ws : List (List Char)} (h : ∀ w ∈ ws, IsUnbroken w) :
    IsUnbroken (spaced ws) := by
  induction ws with
  | nil => exact isUnbroken_nil
  | cons w ws ih =>
    obtain ⟨hw, hws⟩ := List.forall_mem_cons.1 h
    cases ws with
    | nil => rwa [spaced_singleton]
    | cons v vs =>
      rw [spaced_cons_cons]
      exact hw.append (List.forall_mem_cons.2 ⟨by decide, ih hws⟩)

/-- **Words with spaces between them are read one after the other.** -/
theorem lexemes_spaced {ws : List (List Char)} {ls : List Lex} (h : ReadsAll ws ls) :
    ∀ before, mayPrecedeRelation before = true → lexemes before (spaced ws) = ls := by
  induction h with
  | nil => exact fun before _ ↦ lexemes_nil before
  | @cons w ws ls ls' hw hs ih =>
    intro before hbefore
    cases hs with
    | nil =>
      have := hw before [] hbefore (by simp)
      rw [spaced_singleton]
      rwa [List.append_nil, lexemes_nil] at this
    | @cons v vs ks ks' hv hvs =>
      rw [spaced_cons_cons, hw before _ hbefore (by simp), lexemes_space, ih (some ' ') (by decide)]

end ErDiagram
