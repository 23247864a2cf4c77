import ErDiagram.Proofs.FieldLine.Words

/-!
# Stretches of a field line

A canonical field line is put together from stretches of words: the type, each modifier, the default
value, the reference.  A `Segment` says of a stretch as what lexemes it reads and what items these
make up; stretches in a row make up their items in a row, as long as every stretch but the first
starts with a keyword, which no item before it can use (`Segment.append`).

The condition on keywords is where the ambiguity of the grammar is kept away from canonical lines.
An item takes as many operands as it can, but no keyword follows a type, a default value, a foreign
key or a relation as an operand, so an item in front of one is complete.  All stretches of a
canonical line but the type begin with a keyword, and the type comes first.
-/

set_option autoImplicit false

namespace ErDiagram

open Lexeme Text

/-! ## Words of one or two tokens

A token spelled as its kind asks is a word, and so is a token with an argument list right behind it.
Only the number `-0` is none, as it is read as a relation. -/

/-- A token is a word. -/
theorem reads_of_spells {kind : TokenKind} {w : List Char} (h : Spells kind w)
    (hnumber : kind = .number → w ≠ ['-', '0']) : Reads w [(kind, String.ofList w)] := by
  intro before rest hbefore hrest
  exact lexemes_token (token?_of_spells h (fun c hc ↦ .inl (hrest c hc))
    (fun _ ↦ ⟨hbefore, hrest⟩) fun hk ↦ .inl (hnumber hk))

/-- A token with an argument list directly behind it is a word. -/
theorem reads_append_arguments {kind : TokenKind} {w a : List Char} (h : Spells kind w)
    (hkind : kind ≠ .relation) (ha : IsArguments a) :
    Reads (w ++ a) [(kind, String.ofList w), (.arguments, String.ofList a)] := by
  intro before rest hbefore hrest
  obtain ⟨body, hbody⟩ : ∃ body, a = '(' :: body := by
    obtain ⟨body, _, rfl⟩ := ha
    exact ⟨_, rfl⟩
  have hhead : (a ++ rest).head? = some '(' := by rw [hbody]; rfl
  have hcloses : Closes (a ++ rest) := by
    intro c hc
    rw [hhead] at hc
    exact .inr (Option.some.inj hc).symm
  have hlast : (w ++ a).getLast? = a.getLast? := by
    rw [List.getLast?_append, hbody, List.getLast?_cons, Option.some_or]
  rw [List.append_assoc, lexemes_token (token?_of_spells h hcloses (fun hk ↦ absurd hk hkind)
    fun _ ↦ .inr hhead), lexemes_token (token?_arguments ha rest), hlast]
  rfl

/-! ## Types and default values

What a type and a default value look like, as predicates on their texts.  A type is a word, with or
without an argument list, or a target.  A default value may be a keyword, a number or a quoted text
as well, and any of these may have an argument list behind it. -/

/-- What a type looks like. -/
inductive IsType : List Char → Prop
  | word {w : List Char} (h : Spells .word w) : IsType w
  | call {w a : List Char} (h : Spells .word w) (ha : IsArguments a) : IsType (w ++ a)
  | target {w : List Char} (h : IsTarget w) : IsType w

/-- A default value without an argument list. -/
def IsAtom (cs : List Char) : Prop := IsName cs ∨ IsTarget cs ∨ IsNumber cs ∨ IsQuotation cs

/-- What a default value looks like. -/
inductive IsDefault : List Char → Prop
  | atom {w : List Char} (h : IsAtom w) : IsDefault w
  | call {w a : List Char} (h : IsAtom w) (ha : IsArguments a) : IsDefault (w ++ a)

/-- The default values without argument lists are the tokens that the grammar accepts as one. -/
theorem isAtom_iff {w : List Char} :
    IsAtom w ↔ ∃ kind : TokenKind, kind.isValue = true ∧ Spells kind w := by
  constructor
  · rintro (h | h | h | h)
    · refine ⟨nameKind w, ?_, spells_nameKind h⟩
      rw [nameKind]
      cases Keyword.ofName? w <;> rfl
    · exact ⟨.target, rfl, h⟩
    · exact ⟨.number, rfl, h⟩
    · exact ⟨.quotation, rfl, h⟩
  · rintro ⟨kind, hkind, h⟩
    cases kind with
    | word | keyword _ => exact .inl h.1
    | target => exact .inr (.inl h)
    | number => exact .inr (.inr (.inl h))
    | quotation => exact .inr (.inr (.inr h))
    | arguments | point | relation => cases hkind

/-- A token with an argument list behind it is a line if there is no break inside. -/
theorem isLine_append_arguments {kind : TokenKind} {w a : List Char} (h : Spells kind w)
    (ha : IsArguments a) (hu : IsUnbroken (w ++ a)) : IsLine (w ++ a) := by
  have hspells : Spells .arguments a := ha
  exact (h.isLine hu.of_append_left).append_line (hspells.isLine hu.of_append_right)

theorem IsType.isLine {w : List Char} (h : IsType w) (hu : IsUnbroken w) : IsLine w := by
  cases h with
  | word h => exact h.isLine hu
  | call h ha => exact isLine_append_arguments h ha hu
  | target h => exact (show Spells .target w from h).isLine hu

theorem IsDefault.isLine {w : List Char} (h : IsDefault w) (hu : IsUnbroken w) : IsLine w := by
  cases h with
  | atom h =>
    obtain ⟨kind, _, h⟩ := isAtom_iff.1 h
    exact h.isLine hu
  | call h ha =>
    obtain ⟨kind, _, h⟩ := isAtom_iff.1 h
    exact isLine_append_arguments h ha hu

/-! ## Items of lexemes

The first item of some lexemes, one lemma for each form that canonical lines use.  Where an item
could take one more operand, the lemma asks that the lexemes behind it start with none. -/

/-- The modifier that a keyword stands for. -/
def Keyword.modifier? : Keyword → Option Modifier
  | pk => some .pk
  | unique => some .unique
  | unsigned => some .unsigned
  | null => some .null
  | fk | not | default => none

namespace Item

theorem ofLexemes_nil : ofLexemes [] = [] := by rw [ofLexemes, List.map_nil, ofTokens]

theorem ofLexemes_cons (l : Lex) (ls : List Lex) : ofLexemes (l :: ls) =
    (first l.token (ls.map Lex.token)).1 :: ofTokens (first l.token (ls.map Lex.token)).2 := by
  rw [ofLexemes, List.map_cons, ofTokens]

/-- Nothing, or lexemes of which the first is a keyword. -/
def StartsWithKeyword (ls : List Lex) : Prop := ∀ l ∈ ls.head?, ∃ k, l.1 = .keyword k

variable {ls : List Lex} {s : String}

/-- No item uses a keyword behind it that is not of a kind it asks for. -/
theorem operand?_of_startsWithKeyword (h : StartsWithKeyword ls) {ok : TokenKind → Bool}
    (hok : ∀ k, ok (.keyword k) = false) : operand? ok (ls.map Lex.token) = none := by
  cases ls with
  | nil => rfl
  | cons l ls =>
    obtain ⟨k, hk⟩ := h l rfl
    have : ok l.token.kind = false := by rw [Lex.token, hk]; exact hok k
    exact if_neg (by simp [this])

theorem isReferable_of_startsWithKeyword (h : StartsWithKeyword ls) :
    ∀ l ∈ ls.head?, l.1.isReferable = false := by
  intro l hl
  obtain ⟨k, hk⟩ := h l hl
  rw [hk]
  rfl

theorem withArguments_of_startsWithKeyword (h : StartsWithKeyword ls) :
    withArguments s (ls.map Lex.token) = (s, ls.map Lex.token) := by
  rw [withArguments, operand?_of_startsWithKeyword h fun _ ↦ rfl]

theorem ofLexemes_word (h : StartsWithKeyword ls) :
    ofLexemes ((.word, s) :: ls) = .type s :: ofLexemes ls := by
  rw [ofLexemes_cons]
  simp only [first, Lex.token]
  rw [withArguments_of_startsWithKeyword h]
  rfl

theorem ofLexemes_word_arguments (a : String) :
    ofLexemes ((.word, s) :: (.arguments, a) :: ls) = .type (s ++ a) :: ofLexemes ls := by
  rw [ofLexemes_cons]
  rfl

theorem ofLexemes_target : ofLexemes ((.target, s) :: ls) = .type s :: ofLexemes ls := by
  rw [ofLexemes_cons]
  rfl

theorem ofLexemes_default {kind : TokenKind} (hkind : kind.isValue = true) (v : String)
    (h : StartsWithKeyword ls) :
    ofLexemes ((.keyword .default, s) :: (kind, v) :: ls) = .default v :: ofLexemes ls := by
  have hop : operand? TokenKind.isValue (((kind, v) :: ls).map Lex.token) =
      some (Lex.token (kind, v), ls.map Lex.token) := if_pos hkind
  rw [ofLexemes_cons]
  simp only [first, Lex.token] at hop ⊢
  rw [hop]
  simp only [withArguments_of_startsWithKeyword h]
  rfl

theorem ofLexemes_default_arguments {kind : TokenKind} (hkind : kind.isValue = true)
    (v a : String) : ofLexemes ((.keyword .default, s) :: (kind, v) :: (.arguments, a) :: ls) =
      .default (v ++ a) :: ofLexemes ls := by
  have hop : operand? TokenKind.isValue (((kind, v) :: (.arguments, a) :: ls).map Lex.token) =
      some (Lex.token (kind, v), ((.arguments, a) :: ls).map Lex.token) := if_pos hkind
  rw [ofLexemes_cons]
  simp only [first, Lex.token] at hop ⊢
  rw [hop]
  rfl

theorem ofLexemes_relation_target (t : String) :
    ofLexemes ((.relation, s) :: (.target, t) :: ls) =
      .relation s (some (.ofTarget t s)) :: ofLexemes ls := by
  rw [ofLexemes_cons]
  rfl

theorem ofLexemes_relation_word (t : String) :
    ofLexemes ((.relation, s) :: (.word, t) :: ls) =
      .relation s (some (.ofTarget t s)) :: ofLexemes ls := by
  rw [ofLexemes_cons]
  rfl

/-- A relation without a word or target behind it. -/
theorem ofLexemes_relation (h : ∀ l ∈ ls.head?, l.1.isReferable = false) :
    ofLexemes ((.relation, s) :: ls) = .relation s none :: ofLexemes ls := by
  have hop : operand? TokenKind.isReferable (ls.map Lex.token) = none := by
    cases ls with
    | nil => rfl
    | cons l ls => exact if_neg (by simp [Lex.token, h l rfl])
  rw [ofLexemes_cons]
  simp only [first, Lex.token] at hop ⊢
  rw [hop]
  rfl

/-- The word `fk` before a relation or a point. -/
theorem ofLexemes_fk (h : ∀ l ∈ ls.head?, l.1 ≠ .target) :
    ofLexemes ((.keyword .fk, s) :: ls) = .foreignKey none :: ofLexemes ls := by
  have hop : operand? (· = .target) (ls.map Lex.token) = none := by
    cases ls with
    | nil => rfl
    | cons l ls => exact if_neg (by simp [Lex.token, h l rfl])
  rw [ofLexemes_cons]
  simp only [first, Lex.token] at hop ⊢
  rw [hop]
  rfl

/-- The word `default` without a value behind it. -/
theorem ofLexemes_default_ignored (h : ∀ l ∈ ls.head?, l.1.isValue = false) :
    ofLexemes ((.keyword .default, s) :: ls) = .ignored s :: ofLexemes ls := by
  have hop : operand? TokenKind.isValue (ls.map Lex.token) = none := by
    cases ls with
    | nil => rfl
    | cons l ls => exact if_neg (by simp [Lex.token, h l rfl])
  rw [ofLexemes_cons]
  simp only [first, Lex.token] at hop ⊢
  rw [hop]
  rfl

/-- The keyword of a modifier. -/
theorem ofLexemes_modifier {k : Keyword} {m : Modifier} (h : k.modifier? = some m) :
    ofLexemes ((.keyword k, s) :: ls) = .modifier m :: ofLexemes ls := by
  cases k <;> cases h <;> rw [ofLexemes_cons] <;> rfl

/-- What a keyword means where nothing that it could use stands behind it. -/
def ofKeyword (k : Keyword) (s : String) : Item :=
  match k with
  | .fk => .foreignKey none
  | .not | .default => .ignored s
  | .pk => .modifier .pk
  | .unique => .modifier .unique
  | .unsigned => .modifier .unsigned
  | .null => .modifier .null

theorem ofLexemes_keyword_point (k : Keyword) (p : String) :
    ofLexemes ((.keyword k, s) :: (.point, p) :: ls) =
      ofKeyword k s :: ofLexemes ((.point, p) :: ls) := by
  cases k <;> rw [ofLexemes_cons] <;> rfl

theorem ofLexemes_point : ofLexemes ((.point, s) :: ls) = .ignored s :: ofLexemes ls := by
  rw [ofLexemes_cons]
  rfl

end Item

/-! ## Segments

A segment ties three things together: the words that are written, the lexemes they are read as, and
the items these make up.  The last is said with any lexemes behind it that start with a keyword or
are none, and so segments can be put in a row without looking into them again. -/

/-- Some words are read as certain lexemes, and these make up certain items where no item can use
what follows. -/
structure Segment (ws : List (List Char)) (ls : List Lex) (items : List Item) : Prop where
  /-- What the words read as. -/
  reads : ReadsAll ws ls
  /-- What it makes up. -/
  items : ∀ rest, Item.StartsWithKeyword rest →
    Item.ofLexemes (ls ++ rest) = items ++ Item.ofLexemes rest

namespace Segment

open Item

theorem nil : Segment [] [] [] := ⟨.nil, fun _ _ ↦ rfl⟩

theorem startsWithKeyword_append {ls rest : List Lex} (h : StartsWithKeyword ls)
    (hrest : StartsWithKeyword rest) : StartsWithKeyword (ls ++ rest) := by
  cases ls with
  | nil => exact hrest
  | cons l ls => exact h

theorem startsWithKeyword_nil : StartsWithKeyword [] := by simp [StartsWithKeyword]

theorem startsWithKeyword_cons (k : Keyword) (s : String) (ls : List Lex) :
    StartsWithKeyword ((.keyword k, s) :: ls) := by
  intro l hl
  cases hl
  exact ⟨k, rfl⟩

variable {ws ws' : List (List Char)} {ls ls' : List Lex} {items items' : List Item}

theorem append (h : Segment ws ls items) (h' : Segment ws' ls' items')
    (hk : StartsWithKeyword ls') : Segment (ws ++ ws') (ls ++ ls') (items ++ items') := by
  refine ⟨h.reads.append h'.reads, ?_⟩
  intro rest hrest
  rw [List.append_assoc, h.items _ (startsWithKeyword_append hk hrest), h'.items _ hrest,
    List.append_assoc]

/-- A name and the segment behind it are a field line. -/
theorem ofText?_spaced {name : List Char} (hname : IsName name) (h : Segment ws ls items) :
    FieldLine.ofText? (spaced (name :: ws)) = some ⟨String.ofList name, items⟩ := by
  have hreads : Reads name [(nameKind name, String.ofList name)] := by
    refine reads_of_spells (spells_nameKind hname) ?_
    intro hk
    rw [nameKind] at hk
    cases hof : Keyword.ofName? name <;> rw [hof] at hk <;> cases hk
  have hlex := lexemes_spaced (.cons hreads h.reads) none rfl
  have hkind : (nameKind name).isName = true := by
    rw [nameKind]
    cases Keyword.ofName? name <;> rfl
  rw [FieldLine.ofText?_eq]
  rw [List.singleton_append] at hlex
  rw [hlex]
  simp only [hkind, if_true]
  have hitems := h.items [] startsWithKeyword_nil
  rw [List.append_nil, ofLexemes_nil, List.append_nil] at hitems
  rw [hitems]

/-! ### The segments of a canonical line

One lemma for each part of a field as it is written: a modifier, a type, a default value and a
reference.  The default value `-0` has one of its own, which says what the line declares instead. -/

/-- A keyword is a word. -/
theorem reads_keyword (k : Keyword) : Reads k.spelling.toList [(.keyword k, k.spelling)] := by
  have h : Spells (.keyword k) k.spelling.toList := by
    cases k <;> exact ⟨⟨by decide, by repeat' constructor⟩, by decide⟩
  have := reads_of_spells h fun hk ↦ by cases hk
  rwa [String.ofList_toList] at this

theorem reads_relation {w : List Char} (h : IsRelation w) :
    Reads w [(.relation, String.ofList w)] :=
  reads_of_spells (show Spells .relation w from h) (by simp)

theorem reads_target {w : List Char} (h : IsTarget w) :
    Reads w [(.target, String.ofList w)] :=
  reads_of_spells (show Spells .target w from h) (by simp)

theorem modifier {k : Keyword} {m : Modifier} (h : k.modifier? = some m) :
    Segment [k.spelling.toList] [(.keyword k, k.spelling)] [.modifier m] :=
  ⟨.word (reads_keyword k), fun _ _ ↦ ofLexemes_modifier h⟩

theorem type {w : List Char} (h : IsType w) :
    ∃ ls, Segment [w] ls [.type (String.ofList w)] := by
  cases h with
  | word h =>
    exact ⟨_, .word (reads_of_spells h (by simp)), fun _ hrest ↦ ofLexemes_word hrest⟩
  | target h =>
    exact ⟨_, .word (reads_target h), fun _ _ ↦ ofLexemes_target⟩
  | @call w a h ha =>
    refine ⟨_, .word (reads_append_arguments h (by simp) ha), ?_⟩
    intro _ _
    rw [String.ofList_append]
    exact ofLexemes_word_arguments _

theorem default {w : List Char} (h : IsDefault w) (hne : w ≠ ['-', '0']) :
    ∃ ls, Segment ["default".toList, w] ls [.default (String.ofList w)] ∧ StartsWithKeyword ls := by
  cases h with
  | atom h =>
    obtain ⟨kind, hkind, h⟩ := isAtom_iff.1 h
    refine ⟨_, ⟨.pair (reads_keyword .default) (reads_of_spells h fun _ ↦ hne), fun _ hrest ↦ ?_⟩,
      startsWithKeyword_cons _ _ _⟩
    exact ofLexemes_default hkind _ hrest
  | @call w a h ha =>
    obtain ⟨kind, hkind, h⟩ := isAtom_iff.1 h
    have hrelation : kind ≠ .relation := by rintro rfl; cases hkind
    refine ⟨_, ⟨.pair (reads_keyword .default) (reads_append_arguments h hrelation ha),
      fun _ _ ↦ ?_⟩, startsWithKeyword_cons _ _ _⟩
    rw [String.ofList_append]
    exact ofLexemes_default_arguments hkind _ _

/-- The value `-0` reads as a relation. -/
theorem default_minusZero : ∃ ls, Segment ["default".toList, ['-', '0']] ls
    [.ignored "default", .relation "-0" none] ∧ StartsWithKeyword ls := by
  have hzero := reads_relation (isRelation_iff.2 (by decide) : IsRelation ['-', '0'])
  refine ⟨_, ⟨.pair (reads_keyword .default) hzero, fun rest hrest ↦ ?_⟩,
    startsWithKeyword_cons _ _ _⟩
  exact (ofLexemes_default_ignored (by simp [TokenKind.isValue])).trans
    (congrArg _ (ofLexemes_relation (isReferable_of_startsWithKeyword hrest)))

/-- A reference as it is written. -/
theorem reference {r t : List Char} (hr : IsRelation r) (ht : IsTarget t) :
    ∃ ls, Segment ["fk".toList, r, t] ls [.foreignKey none,
      .relation (String.ofList r) (some (.ofTarget (String.ofList t) (String.ofList r)))] ∧
        StartsWithKeyword ls := by
  refine ⟨_, ⟨.cons (reads_keyword .fk) (.pair (reads_relation hr)
    (reads_target ht)), fun _ _ ↦ ?_⟩, startsWithKeyword_cons _ _ _⟩
  exact (ofLexemes_fk (by simp)).trans (congrArg _ (ofLexemes_relation_target _))

/-! ### References to tables that are no names

A reference that the name of a field suggests may be to the table of the empty name, or of a name
with a hyphen behind it.  No such target is a token. -/

theorem lexemes_point_id (before : Option Char) {rest : List Char}
    (hrest : ∀ c ∈ rest.head?, c = ' ') :
    lexemes before ('.' :: 'i' :: 'd' :: rest) =
      (.point, ".") :: (.word, "id") :: lexemes (some 'd') rest := by
  have hpoint := lexemes_token (w := ['.']) (token?_point before ('i' :: 'd' :: rest))
  have hword : Spells .word ['i', 'd'] := ⟨⟨by decide, .char (by decide) .nil⟩, by decide⟩
  have hid : token? (some '.') (['i', 'd'] ++ rest) = some (.word, ['i', 'd'], rest) :=
    token?_of_spells hword (fun c hc ↦ .inl (hrest c hc)) (by simp) (by simp)
  exact hpoint.trans (congrArg _ (lexemes_token hid))

theorem ofLexemes_point_id {ls : List Lex} (h : StartsWithKeyword ls) :
    ofLexemes ((.point, ".") :: (.word, "id") :: ls) =
      .ignored "." :: .type "id" :: ofLexemes ls := by
  rw [ofLexemes_point, ofLexemes_word h]

/-- A reference to the table of the empty name. -/
theorem reference_empty {r : List Char} (hr : IsRelation r) :
    ∃ ls, Segment ["fk".toList, r, ['.', 'i', 'd']] ls
      [.foreignKey none, .relation (String.ofList r) none, .ignored ".", .type "id"] ∧
        StartsWithKeyword ls := by
  have hreads : Reads ['.', 'i', 'd'] [(.point, "."), (.word, "id")] :=
    fun before _ _ hrest ↦ lexemes_point_id before hrest
  refine ⟨_, ⟨.cons (reads_keyword .fk) (.pair (reads_relation hr) hreads), fun _ hrest ↦ ?_⟩,
    startsWithKeyword_cons _ _ _⟩
  refine (ofLexemes_fk (by simp)).trans (congrArg _ ?_)
  exact (ofLexemes_relation (by simp [TokenKind.isReferable])).trans
    (congrArg _ (ofLexemes_point_id hrest))

/-- A name is read before a hyphen that does not continue it, and the hyphen is passed over. -/
theorem reads_hyphen {w : List Char} (hw : IsName w) :
    Reads (w ++ ['-', '.', 'i', 'd'])
      [(nameKind w, String.ofList w), (.point, "."), (.word, "id")] := by
  intro before rest _ hrest
  have hstop : nameRest ('-' :: '.' :: 'i' :: 'd' :: rest) =
      ([], '-' :: '.' :: 'i' :: 'd' :: rest) :=
    nameRest_cons_stop (by decide) fun _ d hd ↦ by cases hd; decide
  -- behind a name the hyphen is no relation, and no other rule reads it
  have hstray : token? w.getLast? ('-' :: '.' :: 'i' :: 'd' :: rest) = none := by
    have hrelation : relation? w.getLast? ('-' :: '.' :: 'i' :: 'd' :: rest) = none :=
      if_neg (by rw [hw.mayPrecedeRelation_eq]; exact Bool.false_ne_true)
    rw [token?.eq_def, hrelation]
    rfl
  have hlast : (w ++ ['-', '.', 'i', 'd']).getLast? = some 'd' := by
    rw [List.getLast?_append]
    rfl
  have hname : token? before (w ++ '-' :: '.' :: 'i' :: 'd' :: rest) =
      some (nameKind w, w, '-' :: '.' :: 'i' :: 'd' :: rest) := token?_name hw hstop (by simp)
  rw [hlast, List.append_assoc]
  refine (lexemes_token hname).trans (congrArg _ ?_)
  rw [lexemes_stray (by decide) hstray]
  exact lexemes_point_id _ hrest

/-- A reference to a table of which the name is a word with a hyphen. -/
theorem reference_word {r w : List Char} (hr : IsRelation r) (hw : Spells .word w) :
    ∃ ls, Segment ["fk".toList, r, w ++ ['-', '.', 'i', 'd']] ls
      [.foreignKey none,
        .relation (String.ofList r) (some (.ofTarget (String.ofList w) (String.ofList r))),
        .ignored ".", .type "id"] ∧ StartsWithKeyword ls := by
  have hreads := reads_hyphen hw.1
  rw [nameKind_of_spells_word hw] at hreads
  refine ⟨_, ⟨.cons (reads_keyword .fk) (.pair (reads_relation hr) hreads), fun _ hrest ↦ ?_⟩,
    startsWithKeyword_cons _ _ _⟩
  refine (ofLexemes_fk (by simp)).trans (congrArg _ ?_)
  exact (ofLexemes_relation_word _).trans (congrArg _ (ofLexemes_point_id hrest))

/-- A reference to a table of which the name is a keyword with a hyphen. -/
theorem reference_keyword {r w : List Char} {k : Keyword} (hr : IsRelation r)
    (hw : Spells (.keyword k) w) :
    ∃ ls, Segment ["fk".toList, r, w ++ ['-', '.', 'i', 'd']] ls
      [.foreignKey none, .relation (String.ofList r) none, ofKeyword k (String.ofList w),
        .ignored ".", .type "id"] ∧ StartsWithKeyword ls := by
  have hreads := reads_hyphen hw.1
  rw [nameKind_of_spells_keyword hw] at hreads
  refine ⟨_, ⟨.cons (reads_keyword .fk) (.pair (reads_relation hr) hreads), fun _ hrest ↦ ?_⟩,
    startsWithKeyword_cons _ _ _⟩
  refine (ofLexemes_fk (by simp)).trans (congrArg _ ?_)
  refine (ofLexemes_relation (by simp [TokenKind.isReferable])).trans (congrArg _ ?_)
  exact (ofLexemes_keyword_point _ _).trans (congrArg _ (ofLexemes_point_id hrest))

end Segment

end ErDiagram
