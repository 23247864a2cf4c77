import ErDiagram.Schema.Reference
import ErDiagram.Text.Blank
import ErDiagram.Text.Literal
import ErDiagram.Text.Word

/-!
# The tokens of a field line

A field line is cut into *pieces*: tokens, stretches of spaces and tabs, comments, and characters
that start no token.  The pieces of a text, one after the other, are the text; the tokens among
them, each with the place where it starts, are what the grammar reads.

At each place the first rule that applies cuts off the next piece:

* a relation, if no character that could belong to a name, number or path stands before it, and a
  blank, a comment or the end behind it; of several spellings the first of `relationSpellings`;
* a number: digits with an optional minus sign and fraction;
* a quoted text, between single or double marks;
* two names with a point between them, a *target*;
* a name: letters, digits, `_` and `$`, with single hyphens inside; some names are keywords, in
  upper or lower case;
* an argument list, from an opening parenthesis to the next closing one;
* a comment, from a number sign to the end of the line;
* a point.

The order of the rules matters where two of them apply.  A relation comes before a number, since
`0-` and `0-0` start with a digit and `-0` is a number as well, and a target comes before a name,
which is its front part.  Names, targets and numbers are taken as long as they can be, quoted texts
and argument lists end at the first closing mark, and of relations the first spelling in the list
that fits counts.

Only the rule for relations looks at the character before it.  That is why `Piece.cut` is told about
that character and hands the last one of each piece on to the next.
-/

set_option autoImplicit false

namespace ErDiagram

/-! ## Kinds of tokens and pieces

The kinds tell the grammar apart from the spelling: whoever reads tokens looks at their kinds, and
at their texts only to copy them. -/

/-- A name that the grammar knows. -/
inductive Keyword where
  /-- A primary key. -/
  | pk
  /-- No value occurs twice. -/
  | unique
  /-- No value is negative. -/
  | unsigned
  /-- Values may be missing. -/
  | null
  /-- A foreign key. -/
  | fk
  /-- Takes back a modifier. -/
  | not
  /-- A default value follows. -/
  | default
  deriving DecidableEq, Repr

namespace Keyword

/-- The spelling of a keyword in lower case. -/
def spelling : Keyword → String
  | pk => "pk"
  | unique => "unique"
  | unsigned => "unsigned"
  | null => "null"
  | fk => "fk"
  | not => "not"
  | default => "default"

/-- All keywords. -/
def all : List Keyword := [pk, unique, unsigned, null, fk, not, default]

/-- The keyword that a name spells, in upper or lower case. -/
def ofName? (name : List Char) : Option Keyword :=
  all.find? (·.spelling.toList == name.map Char.toLower)

end Keyword

/-- The kinds of tokens. -/
inductive TokenKind where
  /-- A name that is no keyword. -/
  | word
  /-- Two names with a point between them. -/
  | target
  /-- A number. -/
  | number
  /-- A quoted text. -/
  | quotation
  /-- An argument list. -/
  | arguments
  /-- A point. -/
  | point
  /-- A relation. -/
  | relation
  /-- A keyword. -/
  | keyword (k : Keyword)
  deriving DecidableEq, Repr

/-- The name of a kind.  The keywords of modifiers have one name together. -/
def TokenKind.name : TokenKind → String
  | word => "WORD"
  | target => "TARGET"
  | number => "NUMBER"
  | quotation => "STRING"
  | arguments => "ARGS"
  | point => "DOT"
  | relation => "RELATION"
  | keyword .null => "NULL"
  | keyword .fk => "FK"
  | keyword .not => "NOT"
  | keyword .default => "DEFAULT"
  | keyword .pk | keyword .unique | keyword .unsigned => "MODIFIER"

/-- What a piece of a field line is. -/
inductive PieceKind where
  /-- A token. -/
  | token (kind : TokenKind)
  /-- A space or a tab. -/
  | blank
  /-- A comment. -/
  | comment
  /-- A character that starts no token. -/
  | stray
  deriving DecidableEq, Repr

/-- A piece of a field line. -/
structure Piece where
  /-- What the piece is. -/
  kind : PieceKind
  /-- Its characters. -/
  text : List Char
  deriving DecidableEq, Repr

/-- A token of a field line. -/
structure Token where
  /-- The kind of the token. -/
  kind : TokenKind
  /-- Its characters. -/
  text : String
  /-- The number of characters before it. -/
  offset : Nat
  deriving DecidableEq, Repr

/-! ## The rules

A rule takes the beginning that it applies to off a text, or nothing if it does not apply.  A rule
is a function of the text that is left, and of the character before it where relations are
concerned; it keeps no state and does not know how much of the line has been read.  `token?` tries
the rules in their order. -/

namespace Lexeme

/-- A beginning of a text and what follows it. -/
abbrev Cut := List Char × List Char

/-- Whether a character may start a name. -/
def isNameStart (c : Char) : Bool := c.isAlpha || c == '_'

/-- Whether a character may stand in a name. -/
def isNameChar (c : Char) : Bool := c.isAlphanum || c == '_' || c == '$'

/-- The rest of a name, up to the first character that cannot continue it.  A hyphen continues it
before a further character of the name. -/
def nameRest : List Char → Cut
  | [] => ([], [])
  | c :: cs =>
    let continues := isNameChar c || (c == '-' && cs.head?.any isNameChar)
    if continues then
      let (name, rest) := nameRest cs
      (c :: name, rest)
    else ([], c :: cs)

/-- A name. -/
def name? : List Char → Option Cut
  | [] => none
  | c :: cs =>
    if isNameStart c then
      let (name, rest) := nameRest cs
      some (c :: name, rest)
    else none

/-- Two names with a point between them. -/
def target? (cs : List Char) : Option Cut :=
  match name? cs with
  | some (table, '.' :: rest) => (name? rest).map fun (field, rest) ↦ (table ++ '.' :: field, rest)
  | _ => none

/-- At least one digit. -/
def digits? (cs : List Char) : Option Cut :=
  let ds := cs.takeWhile Char.isDigit
  if ds.isEmpty then none else some (ds, cs.dropWhile Char.isDigit)

/-- A number without a sign. -/
def unsigned? (cs : List Char) : Option Cut :=
  match digits? cs with
  | some (whole, '.' :: rest) =>
    match digits? rest with
    | some (fraction, rest) => some (whole ++ '.' :: fraction, rest)
    | none => some (whole, '.' :: rest)
  | cut => cut

/-- A number. -/
def number? : List Char → Option Cut
  | '-' :: cs => (unsigned? cs).map fun (n, rest) ↦ ('-' :: n, rest)
  | cs => unsigned? cs

/-- A text from an opening mark to the next closing one. -/
def enclosed? (opening closing : Char) : List Char → Option Cut
  | [] => none
  | c :: cs =>
    if c = opening then
      match cs.dropWhile (· ≠ closing) with
      | [] => none
      | mark :: rest => some (c :: cs.takeWhile (· ≠ closing) ++ [mark], rest)
    else none

/-- A quoted text. -/
def quotation? (cs : List Char) : Option Cut :=
  (enclosed? '\'' '\'' cs).or (enclosed? '"' '"' cs)

/-- An argument list. -/
def arguments? (cs : List Char) : Option Cut := enclosed? '(' ')' cs

/-- Whether a relation may stand behind a character, or at the start. -/
def mayPrecedeRelation (before : Option Char) : Bool :=
  !before.any fun c ↦ Text.isWordChar c || c == '.' || c == '$' || c == '-'

/-- Whether a relation may stand before a text. -/
def mayFollowRelation (cs : List Char) : Bool := cs.head?.all fun c ↦ Text.isBlank c || c == '#'

/-- A relation behind the character `before`. -/
def relation? (before : Option Char) (cs : List Char) : Option Cut :=
  if mayPrecedeRelation before then
    relationSpellings.findSome? fun s ↦
      match Text.literal? s cs with
      | some rest => if mayFollowRelation rest then some (s.toList, rest) else none
      | none => none
  else none

/-- A token behind the character `before`, by the first rule that applies. -/
def token? (before : Option Char) (cs : List Char) : Option (TokenKind × Cut) :=
  ((relation? before cs).map (TokenKind.relation, ·)).or <|
  ((number? cs).map (TokenKind.number, ·)).or <|
  ((quotation? cs).map (TokenKind.quotation, ·)).or <|
  ((target? cs).map (TokenKind.target, ·)).or <|
  ((name? cs).map fun cut ↦
    (((Keyword.ofName? cut.1).map TokenKind.keyword).getD .word, cut)).or <|
  ((arguments? cs).map (TokenKind.arguments, ·)).or <|
  match cs with
  | '.' :: rest => some (.point, ['.'], rest)
  | _ => none

/-! ### Every rule cuts a text in two, and takes something off

One statement is proved of every rule, `Cut.IsOf`: what the rule takes off and what it leaves are,
one behind the other, the text that it was given, and what it takes off is not empty.  The first
half says that nothing is changed or lost in reading.  The second half is what lets the recursion of
`Piece.cut` end. -/

/-- The two parts of a cut are the text, and the first is not empty. -/
def Cut.IsOf (cut : Cut) (cs : List Char) : Prop := cut.1 ≠ [] ∧ cs = cut.1 ++ cut.2

theorem append_nameRest (cs : List Char) : (nameRest cs).1 ++ (nameRest cs).2 = cs := by
  induction cs with
  | nil => rfl
  | cons c cs ih => rw [nameRest]; split <;> simp [ih]

theorem isOf_name {cs : List Char} {cut : Cut} (h : name? cs = some cut) : cut.IsOf cs := by
  cases cs with
  | nil => simp [name?] at h
  | cons c cs =>
    rw [name?] at h
    split at h
    · obtain rfl := Option.some.inj h
      exact ⟨by simp, by simp [append_nameRest]⟩
    · cases h

theorem isOf_target {cs : List Char} {cut : Cut} (h : target? cs = some cut) : cut.IsOf cs := by
  rw [target?] at h
  split at h
  · next table rest ht =>
    obtain ⟨⟨field, rest'⟩, hf, rfl⟩ := Option.map_eq_some_iff.1 h
    have h1 := (isOf_name ht).2
    have h2 := (isOf_name hf).2
    exact ⟨by simp, by simp_all⟩
  · cases h

theorem isOf_digits {cs : List Char} {cut : Cut} (h : digits? cs = some cut) : cut.IsOf cs := by
  rw [digits?] at h
  split at h
  · cases h
  · next hne =>
    obtain rfl := Option.some.inj h
    exact ⟨by simpa using hne, (List.takeWhile_append_dropWhile ..).symm⟩

theorem isOf_unsigned {cs : List Char} {cut : Cut} (h : unsigned? cs = some cut) :
    cut.IsOf cs := by
  rw [unsigned?] at h
  split at h
  · next whole rest hw =>
    have h1 := isOf_digits hw
    split at h
    · next fraction rest' hf =>
      have h2 := isOf_digits hf
      obtain rfl := Option.some.inj h
      exact ⟨by simp, by rw [h1.2, h2.2]; simp⟩
    · obtain rfl := Option.some.inj h
      exact h1
  · exact isOf_digits h

theorem isOf_number {cs : List Char} {cut : Cut} (h : number? cs = some cut) : cut.IsOf cs := by
  rw [number?.eq_def] at h
  split at h
  · obtain ⟨⟨n, rest⟩, hn, rfl⟩ := Option.map_eq_some_iff.1 h
    exact ⟨by simp, by simp [(isOf_unsigned hn).2]⟩
  · exact isOf_unsigned h

theorem isOf_enclosed {opening closing : Char} {cs : List Char} {cut : Cut}
    (h : enclosed? opening closing cs = some cut) : cut.IsOf cs := by
  cases cs with
  | nil => simp [enclosed?] at h
  | cons c cs =>
    rw [enclosed?] at h
    split at h
    · split at h
      · cases h
      · next mark rest hd =>
        obtain rfl := Option.some.inj h
        refine ⟨List.cons_ne_nil _ _, ?_⟩
        have := List.takeWhile_append_dropWhile (p := (· ≠ closing)) (l := cs)
        rw [hd] at this
        rw [List.cons_append, List.cons_append, List.append_assoc, List.singleton_append, this]
    · cases h

theorem isOf_quotation {cs : List Char} {cut : Cut} (h : quotation? cs = some cut) :
    cut.IsOf cs := by
  rcases Option.or_eq_some_iff.1 h with h | ⟨_, h⟩ <;> exact isOf_enclosed h

theorem isOf_relation {before : Option Char} {cs : List Char} {cut : Cut}
    (h : relation? before cs = some cut) : cut.IsOf cs := by
  rw [relation?] at h
  split at h
  · obtain ⟨s, hs, h⟩ := List.exists_of_findSome?_eq_some h
    split at h
    · next rest hrest =>
      split at h
      · obtain rfl := Option.some.inj h
        have hne : ∀ s ∈ relationSpellings, s.toList ≠ [] := by decide
        exact ⟨hne s hs, (Text.append_of_literal? hrest).symm⟩
      · cases h
    · cases h
  · cases h

theorem isOf_token {before : Option Char} {cs : List Char} {kind : TokenKind} {cut : Cut}
    (h : token? before cs = some (kind, cut)) : cut.IsOf cs := by
  simp only [token?, Option.or_eq_some_iff, Option.map_eq_some_iff, Prod.mk.injEq] at h
  rcases h with ⟨_, h, _, rfl⟩ | ⟨_, ⟨_, h, _, rfl⟩ | ⟨_, ⟨_, h, _, rfl⟩ | ⟨_, ⟨_, h, _, rfl⟩ |
    ⟨_, ⟨_, h, _, rfl⟩ | ⟨_, ⟨_, h, _, rfl⟩ | ⟨_, h⟩⟩⟩⟩⟩⟩
  · exact isOf_relation h
  · exact isOf_number h
  · exact isOf_quotation h
  · exact isOf_target h
  · exact isOf_name h
  · exact isOf_enclosed h
  · split at h
    · cases h; exact ⟨by simp, rfl⟩
    · cases h

end Lexeme

/-! ## Cutting a whole text

`Piece.first` adds what is no token: a space or a tab, a comment, or else a single character that no
rule takes.  The last case makes it total, so cutting can never stop early, and the pieces of a text
put together are always the text (`Piece.flatMap_text_cut`). -/

namespace Piece

open Lexeme

/-- The first piece of a text that stands behind the character `before`, and the text behind it. -/
def first (before : Option Char) (c : Char) (cs : List Char) : Piece × List Char :=
  if c = ' ' ∨ c = '\t' then (⟨.blank, [c]⟩, cs)
  else
    match token? before (c :: cs) with
    | some (kind, lexeme, rest) => (⟨.token kind, lexeme⟩, rest)
    | none =>
      if c = '#' then
        (⟨.comment, c :: cs.takeWhile (· ≠ '\n')⟩, cs.dropWhile (· ≠ '\n'))
      else (⟨.stray, [c]⟩, cs)

/-- The first piece and what follows it are the text, and the piece is not empty. -/
theorem isOf_first (before : Option Char) (c : Char) (cs : List Char) :
    Cut.IsOf ((first before c cs).1.text, (first before c cs).2) (c :: cs) := by
  rw [first]
  split
  · exact ⟨by simp, rfl⟩
  · split
    · next h => exact isOf_token h
    · split
      · refine ⟨by simp, ?_⟩
        simp [List.takeWhile_append_dropWhile]
      · exact ⟨by simp, rfl⟩

theorem length_first_lt (before : Option Char) (c : Char) (cs : List Char) :
    (first before c cs).2.length < (c :: cs).length := by
  have ⟨hne, h⟩ := isOf_first before c cs
  have := congrArg List.length h
  have := List.length_pos_iff.2 hne
  simp only [List.length_append] at *
  omega

/-- The pieces of a text that stands behind the character `before`. -/
def cut (before : Option Char) : List Char → List Piece
  | [] => []
  | c :: cs =>
    (first before c cs).1 :: cut (first before c cs).1.text.getLast? (first before c cs).2
  termination_by cs => cs.length
  decreasing_by exact length_first_lt before c cs

/-- The pieces of a text, one after the other, are the text. -/
theorem flatMap_text_cut (before : Option Char) (cs : List Char) :
    (cut before cs).flatMap Piece.text = cs := by
  fun_induction cut before cs with
  | case1 => rfl
  | case2 before c cs ih => rw [List.flatMap_cons, ih]; exact (isOf_first before c cs).2.symm

end Piece

/-- The tokens among pieces, of which the first stands behind `offset` characters. -/
def Token.ofPieces (offset : Nat) : List Piece → List Token
  | [] => []
  | p :: ps =>
    match p.kind with
    | .token kind => ⟨kind, String.ofList p.text, offset⟩ :: ofPieces (offset + p.text.length) ps
    | _ => ofPieces (offset + p.text.length) ps

/-- The tokens of a text. -/
def Token.scan (cs : List Char) : List Token := ofPieces 0 (Piece.cut none cs)

/-- The characters among pieces that start no token, each with the number of characters before
it. -/
def Piece.strays (offset : Nat) : List Piece → List (Char × Nat)
  | [] => []
  | p :: ps =>
    (if p.kind = .stray then p.text.map (·, offset) else []) ++ strays (offset + p.text.length) ps

end ErDiagram
