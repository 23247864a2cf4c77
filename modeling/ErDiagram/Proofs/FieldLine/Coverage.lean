import Mathlib.Logic.Function.Iterate
import ErDiagram.Proofs.FieldLine.Tokens

/-!
# What tokens cover, and what they leave out

The tokens of a text stand in it one behind the other, and nothing is left out that a token could
start with (`Token.accounts_scan`): a character outside all tokens is a space or a tab, or stands in
a comment, or is one at which no rule for tokens applies.

Whether a rule applies at a place is said without the reader (`Lexeme.Matches`): the characters from
there on start as the rule asks, and if it is the rule for relations, the neighbours let a relation
stand.  The reader takes a token off just in case some rule applies
(`Lexeme.token?_eq_none_iff`).

Reading a text goes piece by piece, and as every piece takes at least one character off, it comes to
an end (`Token.Scanner.exists_iterate_step`).
-/

set_option autoImplicit false

namespace ErDiagram

namespace Lexeme

open Text

/-! ## Where a rule applies

`Matches` speaks about a place in a text: some characters, those behind them, and the one before
them.  It does not say which rule comes first or how far a rule reaches, so it is weaker than
reading.  What is left out of the tokens is described with it, and that is the strong direction: at
a stray character no token could start, however short. -/

/-- The rule for a kind of tokens applies to the text `w` behind the character `before`, with the
text `rest` behind it. -/
structure Matches (before : Option Char) (kind : TokenKind) (w rest : List Char) : Prop where
  /-- The text is spelled as the kind asks. -/
  spells : Spells kind w
  /-- A relation may stand there. -/
  around : kind = .relation →
    mayPrecedeRelation before = true ∧ mayFollowRelation rest = true

/-- Some rule applies at the start of a text behind the character `before`. -/
def StartsToken (before : Option Char) (cs : List Char) : Prop :=
  ∃ kind w rest, cs = w ++ rest ∧ Matches before kind w rest

section Rules

variable {before : Option Char} {kind : TokenKind} {cs w rest : List Char} {cut : Cut}

theorem mayPrecedeRelation_of_relation? (h : relation? before cs = some cut) :
    mayPrecedeRelation before = true := by
  rw [relation?] at h
  split at h
  · assumption
  · cases h

/-- A token that is a relation is read by the rule for relations. -/
theorem relation?_of_token? (h : token? before cs = some (.relation, cut)) :
    relation? before cs = some cut := by
  simp only [token?, Option.or_eq_some_iff, Option.map_eq_some_iff, Prod.mk.injEq] at h
  rcases h with ⟨_, h, _, rfl⟩ | ⟨_, ⟨_, _, hkind, _⟩ | ⟨_, ⟨_, _, hkind, _⟩ |
    ⟨_, ⟨_, _, hkind, _⟩ | ⟨_, ⟨v, _, hkind, _⟩ | ⟨_, ⟨_, _, hkind, _⟩ | ⟨_, h⟩⟩⟩⟩⟩⟩
  · exact h
  · cases hkind
  · cases hkind
  · cases hkind
  · cases hname : Keyword.ofName? v.1 <;> rw [hname] at hkind <;> cases hkind
  · cases hkind
  · split at h <;> cases h

/-- The reader goes by the rules. -/
theorem matches_of_token? (h : token? before cs = some (kind, cut)) :
    Matches before kind cut.1 cut.2 := by
  refine ⟨spells_of_token? h, ?_⟩
  rintro rfl
  have hrelation := relation?_of_token? h
  exact ⟨mayPrecedeRelation_of_relation? hrelation, (relation?_eq_some hrelation).2.2⟩

theorem relation?_ne_none (h : IsRelation w) (hbefore : mayPrecedeRelation before = true)
    (hrest : mayFollowRelation rest = true) : relation? before (w ++ rest) ≠ none := by
  obtain ⟨s, hs, rfl⟩ := List.mem_map.1 h
  rw [relation?, if_pos hbefore, Ne, List.findSome?_eq_none_iff]
  intro hnone
  have := hnone s hs
  rw [literal?_eq_some_iff.2 rfl] at this
  simp [hrest] at this

theorem unsigned?_ne_none (h : IsUnsigned w) (rest : List Char) : unsigned? (w ++ rest) ≠ none := by
  obtain ⟨c, cs, rfl, hc, -⟩ := h.head
  have hdigits : digits? (c :: cs ++ rest) = some (c :: (cs ++ rest).takeWhile Char.isDigit,
      (cs ++ rest).dropWhile Char.isDigit) := by
    simp [digits?, hc]
  rw [unsigned?, hdigits]
  split
  · split <;> simp
  · simp

theorem number?_ne_none (h : IsNumber w) (rest : List Char) : number? (w ++ rest) ≠ none := by
  cases h with
  | negative h => simpa [number?] using unsigned?_ne_none h rest
  | unsigned h =>
    have hunsigned := unsigned?_ne_none h rest
    obtain ⟨c, cs, rfl, hc, -⟩ := h.head
    rw [number?.eq_def]
    split
    · next heq =>
      cases heq
      exact absurd hc (by decide)
    · exact hunsigned

theorem name?_ne_none {c : Char} (hc : isNameStart c = true) (cs : List Char) :
    name? (c :: cs) ≠ none := by
  simp [name?, hc]

/-- Where a rule applies, a token is read. -/
theorem Matches.token?_ne_none (h : Matches before kind w rest) :
    token? before (w ++ rest) ≠ none := by
  intro hnone
  simp only [token?, Option.or_eq_none_iff, Option.map_eq_none_iff] at hnone
  obtain ⟨hrelation, hnumber, hquotation, -, hname, harguments, hpoint⟩ := hnone
  have hspells := h.spells
  cases kind with
  | relation => exact relation?_ne_none hspells (h.around rfl).1 (h.around rfl).2 hrelation
  | number => exact number?_ne_none hspells rest hnumber
  | quotation => simp [quotation?_append hspells] at hquotation
  | target =>
    obtain ⟨c, cs, rfl, hc⟩ := IsTarget.head hspells
    exact name?_ne_none hc _ hname
  | word | keyword _ =>
    obtain ⟨c, cs, rfl, hc⟩ := hspells.1.head
    exact name?_ne_none hc _ hname
  | arguments => simp [arguments?, enclosed?_append hspells] at harguments
  | point =>
    obtain rfl : w = ['.'] := hspells
    cases hpoint

/-- **A token is read just in case some rule applies.** -/
theorem token?_eq_none_iff : token? before cs = none ↔ ¬ StartsToken before cs := by
  constructor
  · rintro hnone ⟨kind, w, rest, rfl, h⟩
    exact h.token?_ne_none hnone
  · intro h
    refine Option.eq_none_iff_forall_ne_some.2 ?_
    rintro ⟨kind, cut⟩ htoken
    exact h ⟨kind, cut.1, cut.2, (isOf_token htoken).2, matches_of_token? htoken⟩

end Rules

end Lexeme

open Lexeme

/-! ## The pieces of a text

What `Piece.first` decides is restated by kind of piece, first for the front of a text and then,
along the recursion of `Piece.cut`, for every piece in the place where it stands. -/

namespace Piece

/-- What the kind of a piece says about it, behind the character `before` and with the text `rest`
behind it. -/
def Fits (before : Option Char) (p : Piece) (rest : List Char) : Prop :=
  match p.kind with
  | .token kind => Matches before kind p.text rest
  | .blank => ∃ c, p.text = [c] ∧ (c = ' ' ∨ c = '\t')
  | .comment => p.text.head? = some '#' ∧ '\n' ∉ p.text ∧ ∀ c ∈ rest.head?, c = '\n'
  | .stray => p.text.length = 1 ∧ ¬ StartsToken before (p.text ++ rest)

/-- The first piece of a text is as its kind says. -/
theorem fits_first (before : Option Char) (c : Char) (cs : List Char) :
    Fits before (first before c cs).1 (first before c cs).2 := by
  rw [first]
  split
  · next hspace => exact ⟨c, rfl, hspace⟩
  · split
    · next htoken => exact matches_of_token? htoken
    · next hnone =>
      split
      · next hsign =>
        subst hsign
        refine ⟨rfl, ?_, ?_⟩
        · intro hmem
          rcases List.mem_cons.1 hmem with h | h
          · exact absurd h (by decide)
          · exact absurd (Text.of_mem_takeWhile h) (by decide)
        · intro d hd
          have := List.head?_dropWhile_not (decide <| · ≠ '\n') cs
          rw [Option.mem_def.1 hd] at this
          simpa using this
      · exact ⟨rfl, token?_eq_none_iff.1 hnone⟩

/-- Every piece of a text is as its kind says, in the place where it stands. -/
theorem fits_of_cut {before : Option Char} {cs : List Char} {ps qs : List Piece} {p : Piece}
    (h : cut before cs = ps ++ p :: qs) :
    Fits ((ps.flatMap text).getLast?.or before) p (qs.flatMap text) := by
  fun_induction cut before cs generalizing ps with
  | case1 => simp at h
  | case2 before c cs ih =>
    cases ps with
    | nil =>
      obtain ⟨rfl, rfl⟩ := List.cons.inj h
      rw [flatMap_text_cut]
      exact fits_first before c cs
    | cons q ps =>
      obtain ⟨rfl, hps⟩ := List.cons.inj h
      -- the first piece is not empty, so it hides what stands before it
      have hlast := List.getLast?_eq_some_getLast (isOf_first before c cs).1
      have hfits := ih hps
      rw [List.flatMap_cons, List.getLast?_append, Option.or_assoc]
      rw [hlast] at hfits ⊢
      exact hfits

end Piece

/-! ## Places in a text

A place of the text is in exactly one piece, since the pieces put together are the text.  So what is
known about a piece can be said about each of its places, and conversely a place outside all tokens
is in a piece of another kind. -/

section Places

variable {ps ps' qs qs' : List Piece} {p p' : Piece} {i : Nat}

/-- Every place in a text is a place in one of its pieces. -/
theorem Piece.exists_at (h : i < (ps.flatMap text).length) :
    ∃ before p after, ps = before ++ p :: after ∧ (before.flatMap text).length ≤ i ∧
      i < (before.flatMap text).length + p.text.length := by
  induction ps generalizing i with
  | nil => cases h
  | cons q ps ih =>
    by_cases hq : i < q.text.length
    · exact ⟨[], q, ps, rfl, Nat.zero_le i, by simpa using hq⟩
    · rw [List.flatMap_cons, List.length_append] at h
      obtain ⟨before, p, after, rfl, hle, hlt⟩ := ih (i := i - q.text.length) (by omega)
      refine ⟨q :: before, p, after, rfl, ?_, ?_⟩ <;>
        rw [List.flatMap_cons, List.length_append] <;> omega

/-- No place in a text is one in two of its pieces. -/
theorem Piece.eq_of_at (h : ps ++ p :: qs = ps' ++ p' :: qs')
    (hle : (ps.flatMap text).length ≤ i) (hlt : i < (ps.flatMap text).length + p.text.length)
    (hle' : (ps'.flatMap text).length ≤ i)
    (hlt' : i < (ps'.flatMap text).length + p'.text.length) : p = p' := by
  rcases List.append_eq_append_iff.1 h with ⟨as, rfl, hps⟩ | ⟨as, rfl, hps⟩
  all_goals
    cases as with
    | nil =>
      obtain ⟨rfl, -⟩ := List.cons.inj hps
      rfl
    | cons a as =>
      -- the second piece starts behind the end of the first, so the place is not in both
      obtain ⟨rfl, -⟩ := List.cons.inj hps
      simp only [List.flatMap_append, List.flatMap_cons, List.length_append] at hle hlt hle' hlt'
      omega

end Places

namespace Token

/-- A token stands over a place of the text. -/
def Covers (t : Token) (i : Nat) : Prop := t.offset ≤ i ∧ i < t.offset + t.text.length

/-- The token that a piece is, if it is one, behind `offset` characters. -/
def ofPiece? (offset : Nat) (p : Piece) : Option Token :=
  match p.kind with
  | .token kind => some ⟨kind, String.ofList p.text, offset⟩
  | _ => none

theorem ofPiece?_eq_some_iff {offset : Nat} {p : Piece} {t : Token} :
    ofPiece? offset p = some t ↔
      ∃ kind, p.kind = .token kind ∧ t = ⟨kind, String.ofList p.text, offset⟩ := by
  rw [ofPiece?]
  cases p.kind <;> simp [eq_comm]

theorem ofPieces_cons (offset : Nat) (p : Piece) (ps : List Piece) :
    ofPieces offset (p :: ps) =
      (ofPiece? offset p).toList ++ ofPieces (offset + p.text.length) ps := by
  rw [ofPieces.eq_def, ofPiece?]
  cases hkind : p.kind <;> simp [hkind]

/-- The tokens among pieces, each in the place of its piece. -/
theorem mem_ofPieces {offset : Nat} {ps : List Piece} {t : Token} :
    t ∈ ofPieces offset ps ↔ ∃ before p after kind, ps = before ++ p :: after ∧
      p.kind = .token kind ∧
        t = ⟨kind, String.ofList p.text, offset + (before.flatMap Piece.text).length⟩ := by
  induction ps generalizing offset with
  | nil => simp [ofPieces]
  | cons q ps ih =>
    rw [ofPieces_cons, List.mem_append, Option.mem_toList, ofPiece?_eq_some_iff, ih]
    constructor
    · rintro (⟨kind, hkind, rfl⟩ | ⟨before, p, after, kind, rfl, hkind, rfl⟩)
      · exact ⟨[], q, ps, kind, rfl, hkind, rfl⟩
      · exact ⟨q :: before, p, after, kind, rfl, hkind, by simp [Nat.add_assoc]⟩
    · rintro ⟨_ | ⟨q', before⟩, p, after, kind, heq, hkind, rfl⟩
      · obtain ⟨rfl, rfl⟩ := List.cons.inj heq
        exact .inl ⟨kind, hkind, rfl⟩
      · obtain ⟨rfl, rfl⟩ := List.cons.inj heq
        exact .inr ⟨before, p, after, kind, rfl, hkind, by simp [Nat.add_assoc]⟩

/-- Tokens start behind the end of those before them. -/
theorem pairwise_ofPieces (offset : Nat) (ps : List Piece) :
    (ofPieces offset ps).Pairwise fun t u ↦ t.offset + t.text.length ≤ u.offset := by
  induction ps generalizing offset with
  | nil => exact .nil
  | cons q ps ih =>
    rw [ofPieces_cons, List.pairwise_append]
    refine ⟨?_, ih _, ?_⟩
    · cases ofPiece? offset q <;> simp
    · intro t ht u hu
      obtain ⟨kind, -, rfl⟩ := ofPiece?_eq_some_iff.1 (Option.mem_toList.1 ht)
      obtain ⟨before, p, after, kind, rfl, -, rfl⟩ := mem_ofPieces.1 hu
      simp

/-- Over a place in a piece that is no token there is no token. -/
theorem not_covers_of_at {ps before after : List Piece} {p : Piece} {i : Nat}
    (hps : ps = before ++ p :: after) (hkind : ∀ kind, p.kind ≠ .token kind)
    (hle : (before.flatMap Piece.text).length ≤ i)
    (hlt : i < (before.flatMap Piece.text).length + p.text.length) :
    ∀ t ∈ ofPieces 0 ps, ¬ t.Covers i := by
  intro t ht hcovers
  obtain ⟨before', p', after', kind, hps', hkind', rfl⟩ := mem_ofPieces.1 ht
  obtain ⟨hle', hlt'⟩ := hcovers
  simp only [Nat.zero_add, String.length_ofList] at hle' hlt'
  obtain rfl := Piece.eq_of_at (hps.symm.trans hps') hle hlt hle' hlt'
  exact hkind kind hkind'

/-! ## Reading piece by piece

`Scanner.step` is one turn of a loop that keeps the characters read, the tokens found and the
characters left.  Its invariant is that the first and the last of these make up the text and that
the tokens are those of the first.  Every turn takes at least one character off, so after as many
turns as there are characters nothing is left. -/

/-- How far the tokens of a text have been read. -/
structure Scanner where
  /-- The characters that have been read. -/
  done : List Char
  /-- The tokens among them. -/
  tokens : List Token
  /-- The characters that are left. -/
  left : List Char

/-- One turn of reading takes the first piece off what is left, if anything is left. -/
def Scanner.step (s : Scanner) : Scanner :=
  match s.left with
  | [] => s
  | c :: cs =>
    let (p, left) := Piece.first s.done.getLast? c cs
    { done := s.done ++ p.text
      tokens := s.tokens ++ (ofPiece? s.done.length p).toList
      left }

/-- **Reading comes to an end,** after as many turns as there are characters at most, and has then
found the tokens of the text. -/
theorem Scanner.exists_iterate_step (done left : List Char) (ts : List Token) :
    ∃ n ≤ left.length, step^[n] ⟨done, ts, left⟩ =
      ⟨done ++ left, ts ++ ofPieces done.length (Piece.cut done.getLast? left), []⟩ := by
  generalize hbefore : done.getLast? = before
  fun_induction Piece.cut before left generalizing done ts with
  | case1 => exact ⟨0, Nat.le_refl 0, by simp [ofPieces]⟩
  | case2 before c cs ih =>
    subst hbefore
    obtain ⟨hne, htext⟩ := Piece.isOf_first done.getLast? c cs
    have hlt := Piece.length_first_lt done.getLast? c cs
    have hstep : step ⟨done, ts, c :: cs⟩ =
        ⟨done ++ (Piece.first done.getLast? c cs).1.text,
          ts ++ (ofPiece? done.length (Piece.first done.getLast? c cs).1).toList,
          (Piece.first done.getLast? c cs).2⟩ := rfl
    generalize Piece.first done.getLast? c cs = cut at *
    obtain ⟨p, rest⟩ := cut
    dsimp only at *
    -- the rest is read as behind the last character of the first piece, which is not empty
    have hlast : (done ++ p.text).getLast? = p.text.getLast? := by
      rw [List.getLast?_append, List.getLast?_eq_some_getLast hne, Option.some_or]
    obtain ⟨n, hn, hrun⟩ := ih (done ++ p.text) (ts ++ (ofPiece? done.length p).toList) hlast
    refine ⟨n + 1, by omega, ?_⟩
    rw [Function.iterate_succ_apply, hstep, hrun, ofPieces_cons, htext, List.length_append,
      List.append_assoc, List.append_assoc]

/-! ## Nothing is lost

The statement is about places, as an editor sees the line: the tokens by their offsets, and each
character that is in none of them.  A comment is described by where it starts and how far it runs,
and not by the piece that it is. -/

/-- A comment runs from the place `j` to the place `k`. -/
structure CommentRuns (cs : List Char) (j k : Nat) : Prop where
  /-- It does not run backwards. -/
  le : j ≤ k
  /-- It starts with a number sign. -/
  sign : cs[j]? = some '#'
  /-- It stays in its line. -/
  line : ∀ m, j ≤ m → m ≤ k → cs[m]? ≠ some '\n'

/-- The place `i` is in a comment that lies outside the tokens, from its number sign to the next
line feed or the end of the text. -/
def InComment (cs : List Char) (ts : List Token) (i : Nat) : Prop :=
  ∃ j, CommentRuns cs j i ∧ ∀ k < cs.length, CommentRuns cs j k → ∀ t ∈ ts, ¬ t.Covers k

/-- Tokens account for a text. -/
structure Accounts (cs : List Char) (ts : List Token) : Prop where
  /-- One starts behind the other, and behind the end of the other. -/
  ordered : ts.Pairwise fun t u ↦ t.offset < u.offset ∧ t.offset + t.text.length ≤ u.offset
  /-- Each is the part of the text at its place. -/
  slice : ∀ t ∈ ts, (cs.drop t.offset).take t.text.length = t.text.toList
  /-- Each stands where the rule for its kind applies. -/
  rule : ∀ t ∈ ts, Matches (cs.take t.offset).getLast? t.kind t.text.toList
    (cs.drop (t.offset + t.text.length))
  /-- Any other character is a space or a tab, stands in a comment, or is one at which no rule
  applies. -/
  uncovered : ∀ i c, cs[i]? = some c → (∀ t ∈ ts, ¬ t.Covers i) →
    c = ' ' ∨ c = '\t' ∨ InComment cs ts i ∨
      ¬ StartsToken (cs.take i).getLast? (cs.drop i)

/-! ### What stands where

A place inside the tokens is in the token of its piece, and a place outside is in a piece that is no
token.  By the kind of that piece it is a blank, in a comment, or a character at which no rule
applies. -/

/-- A token stands in the text at its place, where the rule for its kind applies. -/
theorem matches_of_mem_scan {cs : List Char} {t : Token} (h : t ∈ scan cs) :
    ∃ rest, cs.drop t.offset = t.text.toList ++ rest ∧
      Matches (cs.take t.offset).getLast? t.kind t.text.toList rest := by
  obtain ⟨before, p, after, kind, hps, hkind, rfl⟩ := mem_ofPieces.1 h
  have htext := Piece.flatMap_text_cut none cs
  have hfits := Piece.fits_of_cut hps
  rw [hps, List.flatMap_append, List.flatMap_cons] at htext
  rw [Piece.Fits, hkind, Option.or_none] at hfits
  refine ⟨after.flatMap Piece.text, ?_, ?_⟩
  · simp [← htext]
  · simpa [← htext] using hfits

/-- A comment that ends with its line runs to all its characters and no further. -/
theorem commentRuns_iff {done w rest : List Char} {k : Nat} (hsign : w.head? = some '#')
    (hw : '\n' ∉ w) (hrest : ∀ c ∈ rest.head?, c = '\n')
    (hk : k < (done ++ (w ++ rest)).length) :
    CommentRuns (done ++ (w ++ rest)) done.length k ↔
      done.length ≤ k ∧ k < done.length + w.length := by
  have hget (n : Nat) : (done ++ (w ++ rest))[done.length + n]? = (w ++ rest)[n]? := by
    rw [List.getElem?_append_right (Nat.le_add_right _ _), Nat.add_sub_cancel_left]
  constructor
  · intro h
    refine ⟨h.le, Nat.lt_of_not_le fun hle ↦ ?_⟩
    -- the line feed that ends the comment would stand in between
    obtain ⟨c, rest, rfl⟩ : ∃ c cs, rest = c :: cs := by
      refine List.exists_cons_of_ne_nil ?_
      rintro rfl
      rw [List.append_nil, List.length_append] at hk
      omega
    obtain rfl := hrest c rfl
    refine h.line (done.length + w.length) (Nat.le_add_right _ _) hle ?_
    simp
  · rintro ⟨hle, hlt⟩
    refine ⟨hle, ?_, fun m hjm hmk heq ↦ ?_⟩
    · rw [← Nat.add_zero done.length, hget, ← List.head?_eq_getElem?, List.head?_append, hsign]
      rfl
    · obtain ⟨n, rfl⟩ := Nat.exists_eq_add_of_le hjm
      rw [hget, List.getElem?_append_left (by omega)] at heq
      exact hw (List.mem_of_getElem? heq)

/-- What a character outside the tokens is, by the piece that it stands in. -/
theorem uncovered_scan {cs : List Char} {i : Nat} {c : Char} (hc : cs[i]? = some c)
    (hi : ∀ t ∈ scan cs, ¬ t.Covers i) : c = ' ' ∨ c = '\t' ∨ InComment cs (scan cs) i ∨
      ¬ StartsToken (cs.take i).getLast? (cs.drop i) := by
  have hlength : i < cs.length := (List.getElem?_eq_some_iff.1 hc).1
  have htext := Piece.flatMap_text_cut none cs
  obtain ⟨before, p, after, hps, hle, hlt⟩ := Piece.exists_at (htext.symm ▸ hlength)
  -- the piece at this place is no token, or the token would cover it
  have hnone : ∀ kind, p.kind ≠ .token kind := fun kind hkind ↦
    hi _ (mem_ofPieces.2 ⟨before, p, after, kind, hps, hkind, rfl⟩)
      ⟨by simpa using hle, by simpa using hlt⟩
  have hcovers (k : Nat) := not_covers_of_at (i := k) hps hnone
  have hfits := Piece.fits_of_cut hps
  rw [Option.or_none, Piece.Fits] at hfits
  rw [hps, List.flatMap_append, List.flatMap_cons] at htext
  generalize before.flatMap Piece.text = done at *
  generalize after.flatMap Piece.text = rest at *
  subst htext
  cases hkind : p.kind with
  | token kind => exact absurd hkind (hnone kind)
  | blank =>
    rw [hkind] at hfits
    obtain ⟨d, hd, hblank⟩ := hfits
    rw [hd] at hc hlt
    obtain rfl : i = done.length := by rw [List.length_singleton] at hlt; omega
    obtain rfl : d = c := by simpa using hc
    exact hblank.imp_right .inl
  | comment =>
    rw [hkind] at hfits
    obtain ⟨hsign, hw, hrest⟩ := hfits
    -- the comment runs through the whole piece and no further, and no token has a place in it
    have hruns := (commentRuns_iff hsign hw hrest hlength).2 ⟨hle, hlt⟩
    refine .inr (.inr (.inl ⟨done.length, hruns, fun k hk hruns ↦ ?_⟩))
    obtain ⟨hle, hlt⟩ := (commentRuns_iff hsign hw hrest hk).1 hruns
    exact hcovers k hle hlt
  | stray =>
    rw [hkind] at hfits
    obtain ⟨hone, hstarts⟩ := hfits
    obtain rfl : i = done.length := by omega
    refine .inr (.inr (.inr ?_))
    rwa [List.take_left, List.drop_left]

/-- **Nothing that a token could start with is left out.**  Reading a text comes to an end, after as
many turns as there are characters at most.  The tokens that it finds start one behind the other and
do not overlap, each is the part of the text at its place, and a character outside all of them is a
space or a tab, stands in a comment that runs from a number sign outside the tokens to the end of
the line, or is one at which no rule for tokens applies. -/
theorem accounts_scan (cs : List Char) :
    (∃ n ≤ cs.length, Scanner.step^[n] ⟨[], [], cs⟩ = ⟨cs, scan cs, []⟩) ∧
      Accounts cs (scan cs) := by
  refine ⟨Scanner.exists_iterate_step [] cs [], ?_, ?_, ?_, ?_⟩
  · refine (pairwise_ofPieces 0 _).imp_of_mem fun {t u} ht _ hle ↦ ⟨?_, hle⟩
    obtain ⟨rest, -, h⟩ := matches_of_mem_scan ht
    have := List.length_pos_iff.2 h.spells.isTrimmed.1
    rw [String.length_toList] at this
    omega
  · intro t ht
    obtain ⟨rest, hdrop, -⟩ := matches_of_mem_scan ht
    rw [hdrop, ← String.length_toList, List.take_left]
  · intro t ht
    obtain ⟨rest, hdrop, h⟩ := matches_of_mem_scan ht
    rw [← List.drop_drop, hdrop, ← String.length_toList, List.drop_left]
    exact h
  · exact fun i c ↦ uncovered_scan

end Token

end ErDiagram
