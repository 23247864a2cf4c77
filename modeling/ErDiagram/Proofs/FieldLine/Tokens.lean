import ErDiagram.Proofs.FieldLine.Spelling
import ErDiagram.Proofs.Text.Literal

/-!
# How tokens are spelled

`Lexeme.Spells` says, kind by kind and without the reader, what the text of a token looks like.
Reading is sound for it: whatever the first rule that applies cuts off is spelled as its kind asks
(`spells_of_token?`).

It is complete in the places where a canonical text puts tokens: behind a character that lets a
relation stand, and before the end, a space or an argument list (`Closes`).  There the reader takes
a token off whole (`token?_name`, `token?_target`, `token?_number`, `token?_quotation`,
`token?_arguments`, `token?_relation`).  One number is the exception: `-0` before a space or the end
is a relation.
-/

set_option autoImplicit false

namespace ErDiagram.Lexeme

open Text

/-! ## Relations

The spellings of relations are `>-<`, `>0-`, `-0<`, `0-0`, `>-`, `-<`, `-0`, `0-` and `-`.  Some are
beginnings of others, and the reader takes the first one in that order with a blank, a number sign
or the end behind it.  Before a space or the end this finds the whole spelling: a shorter one has a
character of the spelling behind it, which is none of these. -/

/-- One of the spellings of a relation. -/
def IsRelation (cs : List Char) : Prop := cs ∈ relationSpellings.map String.toList

theorem isRelation_iff {cs : List Char} : IsRelation cs ↔
    cs = ['>', '-', '<'] ∨ cs = ['>', '0', '-'] ∨ cs = ['-', '0', '<'] ∨ cs = ['0', '-', '0'] ∨
      cs = ['>', '-'] ∨ cs = ['-', '<'] ∨ cs = ['-', '0'] ∨ cs = ['0', '-'] ∨ cs = ['-'] := by
  have hmap : relationSpellings.map String.toList = [['>', '-', '<'], ['>', '0', '-'],
      ['-', '0', '<'], ['0', '-', '0'], ['>', '-'], ['-', '<'], ['-', '0'], ['0', '-'], ['-']] := by
    decide
  simp only [IsRelation, hmap, List.mem_cons, List.not_mem_nil, or_false]

/-- What a relation is read off, and what must stand behind it. -/
theorem relation?_eq_some {before : Option Char} {cs : List Char} {cut : Cut}
    (h : relation? before cs = some cut) :
    IsRelation cut.1 ∧ cs = cut.1 ++ cut.2 ∧ mayFollowRelation cut.2 = true := by
  rw [relation?] at h
  split at h
  · obtain ⟨s, hs, h⟩ := List.exists_of_findSome?_eq_some h
    split at h
    · next rest hrest =>
      split at h
      · next hfollow =>
        obtain rfl := Option.some.inj h
        exact ⟨List.mem_map_of_mem hs, literal?_eq_some_iff.1 hrest, hfollow⟩
      · cases h
    · cases h
  · cases h

/-- A relation starts with one of three characters. -/
theorem relation?_of_head {before : Option Char} {cs : List Char}
    (h : ∀ c ∈ cs.head?, c ≠ '>' ∧ c ≠ '-' ∧ c ≠ '0') : relation? before cs = none := by
  refine Option.eq_none_iff_forall_ne_some.2 ?_
  intro cut hcut
  obtain ⟨hr, rfl, _⟩ := relation?_eq_some hcut
  rcases isRelation_iff.1 hr with hr | hr | hr | hr | hr | hr | hr | hr | hr <;> rw [hr] at h <;>
    exact absurd (h _ rfl) (by decide)

/-- A relation is read whole before a space or the end. -/
theorem relation?_append {before : Option Char} {w rest : List Char} (h : IsRelation w)
    (hbefore : mayPrecedeRelation before = true) (hrest : ∀ c ∈ rest.head?, c = ' ') :
    relation? before (w ++ rest) = some (w, rest) := by
  rw [relation?, if_pos hbefore]
  cases rest with
  | nil =>
    rcases isRelation_iff.1 h with rfl | rfl | rfl | rfl | rfl | rfl | rfl | rfl | rfl <;> rfl
  | cons c rest =>
    obtain rfl := hrest c rfl
    rcases isRelation_iff.1 h with rfl | rfl | rfl | rfl | rfl | rfl | rfl | rfl | rfl <;> rfl

/-! ## Tokens before the end, a space or an argument list

In a canonical text a token has a space behind it, or the end of the line, or an argument list that
belongs to it.  `Closes` says just this about the text behind a token, and it implies all the
conditions of the completeness lemmas for names, targets and numbers.

Numbers are harder than the others, because the rule for relations is tried first and some relations
start with a digit or a minus sign.  A relation at the front of a longer number has a digit or a
point behind it and is not read.  So the one number that can be taken for a relation is `-0`, which
is one as a whole. -/

/-- A text that ends every name and number before it. -/
def Closes (rest : List Char) : Prop := ∀ c ∈ rest.head?, c = ' ' ∨ c = '('

theorem Closes.nameRest_eq {rest : List Char} (h : Closes rest) :
    nameRest rest = ([], rest) := by
  cases rest with
  | nil => rfl
  | cons c rest =>
    rcases h c rfl with rfl | rfl
    · exact nameRest_cons_stop (by decide) fun h ↦ absurd h (by decide)
    · exact nameRest_cons_stop (by decide) fun h ↦ absurd h (by decide)

theorem Closes.not_number {rest : List Char} (h : Closes rest) :
    ∀ c ∈ rest.head?, c.isDigit = false ∧ c ≠ '.' := by
  intro c hc
  rcases h c hc with rfl | rfl <;> decide

theorem Closes.head?_ne_point {rest : List Char} (h : Closes rest) : rest.head? ≠ some '.' :=
  fun hp ↦ (h.not_number '.' hp).2 rfl

/-- What stands behind the first digit of a number, in it or behind it. -/
theorem Closes.of_number {rest : List Char} (h : Closes rest) {cs : List Char}
    (hcs : ∀ d ∈ cs.head?, d.isDigit = true ∨ d = '.') :
    ∀ d ∈ (cs ++ rest).head?, d ≠ '<' ∧ d ≠ '-' := by
  have hne {d : Char} (hd : (d.isDigit = true ∨ d = '.') ∨ d = ' ' ∨ d = '(') :
      d ≠ '<' ∧ d ≠ '-' := by
    constructor <;> rintro rfl <;> revert hd <;> decide
  intro d hd
  cases cs with
  | nil => exact hne (.inr (h d hd))
  | cons e cs => exact hne (.inl (hcs d hd))

theorem mayFollowRelation_of_number {c : Char} (hc : c.isDigit = true ∨ c = '.')
    (cs : List Char) : mayFollowRelation (c :: cs) = false := by
  rcases hc with hc | rfl
  · have hne : c ≠ '#' := by rintro rfl; revert hc; decide
    simp [mayFollowRelation, isBlank_of_isNameChar (isNameChar_of_isDigit hc), hne]
  · rfl

theorem relation?_unsigned {before : Option Char} {w rest : List Char} (h : IsUnsigned w)
    (hrest : Closes rest) : relation? before (w ++ rest) = none := by
  obtain ⟨c, cs, rfl, hc, hcs⟩ := h.head
  have hnext := hrest.of_number hcs
  refine Option.eq_none_iff_forall_ne_some.2 ?_
  intro cut hcut
  obtain ⟨hr, heq, _⟩ := relation?_eq_some hcut
  have hminus {ds : List Char} (h : cs ++ rest = '-' :: ds) : False := by
    rw [h] at hnext
    exact (hnext '-' rfl).2 rfl
  rcases isRelation_iff.1 hr with hr | hr | hr | hr | hr | hr | hr | hr | hr <;>
    rw [hr] at heq <;> obtain ⟨rfl, htail⟩ := List.cons.inj heq
  case inr.inr.inr.inl => exact hminus htail
  case inr.inr.inr.inr.inr.inr.inr.inl => exact hminus htail
  all_goals exact absurd hc (by decide)

/-- The number `-0` is a relation unless an argument list follows. -/
theorem relation?_negative {before : Option Char} {w rest : List Char} (h : IsUnsigned w)
    (hrest : Closes rest) (hw : w ≠ ['0'] ∨ rest.head? = some '(') :
    relation? before ('-' :: w ++ rest) = none := by
  obtain ⟨c, cs, rfl, hc, hcs⟩ := h.head
  have hnext := hrest.of_number hcs
  refine Option.eq_none_iff_forall_ne_some.2 ?_
  intro cut hcut
  obtain ⟨hr, heq, hfollow⟩ := relation?_eq_some hcut
  rcases isRelation_iff.1 hr with hr | hr | hr | hr | hr | hr | hr | hr | hr <;>
    rw [hr] at heq <;> obtain ⟨hminus, htail⟩ := List.cons.inj heq
  case inr.inr.inl =>
    -- `-0<`
    obtain ⟨rfl, hleft⟩ := List.cons.inj htail
    replace hleft : cs ++ rest = '<' :: cut.2 := hleft
    rw [hleft] at hnext
    exact (hnext '<' rfl).1 rfl
  case inr.inr.inr.inr.inr.inl =>
    -- `-<`
    obtain ⟨rfl, _⟩ := List.cons.inj htail
    exact absurd hc (by decide)
  case inr.inr.inr.inr.inr.inr.inl =>
    -- `-0`
    obtain ⟨rfl, hleft⟩ := List.cons.inj htail
    replace hleft : cs ++ rest = cut.2 := hleft
    rw [← hleft] at hfollow
    cases cs with
    | nil =>
      -- the number is `-0`, so an argument list follows, before which no relation stands
      have hhead := hw.resolve_left fun hne ↦ hne rfl
      cases rest with
      | nil => cases hhead
      | cons d rest =>
        obtain rfl := Option.some.inj hhead
        cases hfollow
    | cons d cs =>
      exact absurd hfollow (by simp [mayFollowRelation_of_number (hcs d rfl)])
  case inr.inr.inr.inr.inr.inr.inr.inr =>
    -- `-`
    replace htail : c :: (cs ++ rest) = cut.2 := htail
    rw [← htail, mayFollowRelation_of_number (.inl hc)] at hfollow
    cases hfollow
  all_goals exact absurd hminus (by decide)

/-- A number is no relation, with the one exception. -/
theorem relation?_number {before : Option Char} {w rest : List Char} (h : IsNumber w)
    (hrest : Closes rest) (hw : w ≠ ['-', '0'] ∨ rest.head? = some '(') :
    relation? before (w ++ rest) = none := by
  cases h with
  | unsigned h => exact relation?_unsigned h hrest
  | negative h => exact relation?_negative h hrest (hw.imp_left fun hne he ↦ hne (he ▸ rfl))

/-! ## Tokens of every kind

`Spells` puts the spellings together, with the keywords told from other names.  The lemmas that
follow show for each kind that the rules before its own do not apply, mostly by the first character,
and that its own takes the token off whole. -/

/-- What the text of a token of a given kind looks like. -/
def Spells : TokenKind → List Char → Prop
  | .word, cs => IsName cs ∧ Keyword.ofName? cs = none
  | .keyword k, cs => IsName cs ∧ Keyword.ofName? cs = some k
  | .target, cs => IsTarget cs
  | .number, cs => IsNumber cs
  | .quotation, cs => IsQuotation cs
  | .arguments, cs => IsArguments cs
  | .relation, cs => IsRelation cs
  | .point, cs => cs = ['.']

/-- The kind of a name. -/
def nameKind (w : List Char) : TokenKind :=
  ((Keyword.ofName? w).map TokenKind.keyword).getD .word

theorem spells_nameKind {w : List Char} (h : IsName w) : Spells (nameKind w) w := by
  rw [nameKind]
  cases hk : Keyword.ofName? w with
  | none => exact ⟨h, hk⟩
  | some k => exact ⟨h, hk⟩

theorem nameKind_of_spells_word {w : List Char} (h : Spells .word w) : nameKind w = .word := by
  rw [nameKind, h.2]; rfl

theorem nameKind_of_spells_keyword {k : Keyword} {w : List Char} (h : Spells (.keyword k) w) :
    nameKind w = .keyword k := by
  rw [nameKind, h.2]; rfl

/-- Whatever is read as a token is spelled as one. -/
theorem spells_of_token? {before : Option Char} {cs : List Char} {kind : TokenKind} {cut : Cut}
    (h : token? before cs = some (kind, cut)) : Spells kind cut.1 := by
  simp only [token?, Option.or_eq_some_iff, Option.map_eq_some_iff, Prod.mk.injEq] at h
  rcases h with ⟨_, h, rfl, rfl⟩ | ⟨_, ⟨_, h, rfl, rfl⟩ | ⟨_, ⟨_, h, rfl, rfl⟩ |
    ⟨_, ⟨_, h, rfl, rfl⟩ | ⟨_, ⟨_, h, rfl, rfl⟩ | ⟨_, ⟨_, h, rfl, rfl⟩ | ⟨_, h⟩⟩⟩⟩⟩⟩
  · exact (relation?_eq_some h).1
  · exact isNumber_of_number? h
  · exact isQuotation_of_quotation? h
  · exact isTarget_of_target? h
  · exact spells_nameKind (isName_of_name? h)
  · exact isEnclosed_of_enclosed? h
  · split at h
    · cases h; rfl
    · cases h

/-! ### How tokens start and end

The first character of a name rules most other tokens out, and the last character of a name keeps a
relation from starting right behind it. -/

theorem IsName.head {w : List Char} (h : IsName w) :
    ∃ c cs, w = c :: cs ∧ isNameStart c = true := by
  cases w with
  | nil => exact h.elim
  | cons c cs => exact ⟨c, cs, rfl, h.1⟩

theorem IsNameRest.getLast {cs : List Char} (h : IsNameRest cs) :
    ∀ c ∈ cs.getLast?, isNameChar c = true := by
  induction h with
  | nil => simp
  | @char c cs hc _ ih =>
    rw [List.getLast?_cons]
    cases hl : cs.getLast? with
    | none => simpa using hc
    | some d => simpa using ih d hl
  | @hyphen c cs hc _ ih =>
    rw [List.getLast?_cons, List.getLast?_cons]
    cases hl : cs.getLast? with
    | none => simpa using hc
    | some d => simpa using ih d hl

theorem IsName.getLast {w : List Char} (h : IsName w) :
    ∀ c ∈ w.getLast?, isNameChar c = true := by
  cases w with
  | nil => exact h.elim
  | cons c cs => exact (IsNameRest.char (isNameChar_of_isNameStart h.1) h.2).getLast

/-- No relation starts right behind a name. -/
theorem IsName.mayPrecedeRelation_eq {w : List Char} (h : IsName w) :
    mayPrecedeRelation w.getLast? = false := by
  have hne : w ≠ [] := by rintro rfl; exact h.elim
  have hlast := List.getLast?_eq_some_getLast hne
  have hc := h.getLast _ hlast
  have hcode := toNat_of_isNameChar hc
  rw [hlast]
  generalize w.getLast hne = c at hc hcode
  have hascii : c.toNat < 0x80 := by omega
  simp only [isNameChar, Bool.or_eq_true, beq_iff_eq] at hc
  rcases hc with hc | rfl
  · have hword : isWordChar c = true := by
      rw [isWordChar, if_pos hascii]
      simpa using hc
    simp [mayPrecedeRelation, hword]
  · decide

theorem IsTarget.head {w : List Char} (h : IsTarget w) :
    ∃ c cs, w = c :: cs ∧ isNameStart c = true := by
  obtain ⟨table, field, ht, _, rfl⟩ := h
  obtain ⟨c, cs, rfl, hc⟩ := ht.head
  exact ⟨c, cs ++ '.' :: field, rfl, hc⟩

/-! ### Tokens that are read whole

One lemma for each kind, in the order of the rules, and then all kinds together.  What stands behind
the token matters less and less: a relation needs a space or the end, a number something that closes
it, a name whatever does not continue it, and a quoted text nothing at all. -/

/-- No rule before that for targets applies where a name starts. -/
theorem token?_of_isNameStart {before : Option Char} {c : Char} {cs : List Char}
    (hc : isNameStart c = true) : token? before (c :: cs) =
      ((target? (c :: cs)).map (TokenKind.target, ·)).or
        ((name? (c :: cs)).map fun cut ↦ (nameKind cut.1, cut)) := by
  have hcode := toNat_of_isNameStart hc
  have hne (d : Char) (hd : isNameStart d = false) : c ≠ d := by
    rintro rfl
    exact absurd hc (by simp [hd])
  have hname : name? (c :: cs) = some (c :: (nameRest cs).1, (nameRest cs).2) := if_pos hc
  rw [token?.eq_def, relation?_of_head, number?_of_head, quotation?_of_head, hname]
  · cases target? (c :: cs) <;> rfl
  · rintro d hd
    cases hd
    exact ⟨hne _ (by decide), hne _ (by decide)⟩
  · rintro d hd
    cases hd
    exact ⟨isDigit_of_isNameStart hc, hne _ (by decide)⟩
  · rintro d hd
    cases hd
    exact ⟨hne _ (by decide), hne _ (by decide), hne _ (by decide)⟩

theorem token?_name {before : Option Char} {w rest : List Char} (h : IsName w)
    (hrest : nameRest rest = ([], rest)) (hpoint : rest.head? ≠ some '.') :
    token? before (w ++ rest) = some (nameKind w, w, rest) := by
  have htarget := target?_name h hrest hpoint
  have hname := name?_append h hrest
  obtain ⟨c, cs, rfl, hc⟩ := h.head
  rw [List.cons_append] at htarget hname ⊢
  rw [token?_of_isNameStart hc, htarget, hname]
  rfl

theorem token?_target {before : Option Char} {w rest : List Char} (h : IsTarget w)
    (hrest : nameRest rest = ([], rest)) :
    token? before (w ++ rest) = some (.target, w, rest) := by
  have htarget := target?_append h hrest
  obtain ⟨c, cs, rfl, hc⟩ := h.head
  rw [List.cons_append] at htarget ⊢
  rw [token?_of_isNameStart hc, htarget]
  rfl

theorem token?_number {before : Option Char} {w rest : List Char} (h : IsNumber w)
    (hrest : Closes rest) (hw : w ≠ ['-', '0'] ∨ rest.head? = some '(') :
    token? before (w ++ rest) = some (.number, w, rest) := by
  rw [token?.eq_def, relation?_number h hrest hw, number?_append h hrest.not_number]
  rfl

theorem token?_quotation {before : Option Char} {w : List Char} (h : IsQuotation w)
    (rest : List Char) : token? before (w ++ rest) = some (.quotation, w, rest) := by
  have hhead : ∀ c ∈ (w ++ rest).head?, c = '\'' ∨ c = '"' := by
    rcases h with ⟨body, _, rfl⟩ | ⟨body, _, rfl⟩
    · intro c hc; cases hc; exact .inl rfl
    · intro c hc; cases hc; exact .inr rfl
  rw [token?.eq_def, relation?_of_head, number?_of_head, quotation?_append h]
  · rfl
  · intro c hc
    rcases hhead c hc with rfl | rfl <;> decide
  · intro c hc
    rcases hhead c hc with rfl | rfl <;> decide

theorem token?_arguments {before : Option Char} {w : List Char} (h : IsArguments w)
    (rest : List Char) : token? before (w ++ rest) = some (.arguments, w, rest) := by
  have hargs : arguments? (w ++ rest) = some (w, rest) := enclosed?_append h rest
  obtain ⟨body, _, rfl⟩ := h
  have hhead : ∀ c ∈ ('(' :: body ++ [')'] ++ rest).head?, c = '(' := by
    intro c hc; cases hc; rfl
  have hname : name? ('(' :: body ++ [')'] ++ rest) = none := rfl
  rw [token?.eq_def, relation?_of_head, number?_of_head, quotation?_of_head, target?, hname, hargs]
  · rfl
  all_goals
    intro c hc
    obtain rfl := hhead c hc
    decide

theorem token?_relation {before : Option Char} {w rest : List Char} (h : IsRelation w)
    (hbefore : mayPrecedeRelation before = true) (hrest : ∀ c ∈ rest.head?, c = ' ') :
    token? before (w ++ rest) = some (.relation, w, rest) := by
  rw [token?.eq_def, relation?_append h hbefore hrest]
  rfl

theorem token?_point (before : Option Char) (rest : List Char) :
    token? before ('.' :: rest) = some (.point, ['.'], rest) := by
  rw [token?.eq_def, relation?_of_head, number?_of_head, quotation?_of_head]
  · rfl
  all_goals
    intro c hc
    cases hc
    decide

/-- **A token is read whole** where a canonical text may put it. -/
theorem token?_of_spells {before : Option Char} {kind : TokenKind} {w rest : List Char}
    (h : Spells kind w) (hrest : Closes rest)
    (hrelation : kind = .relation → mayPrecedeRelation before = true ∧ ∀ c ∈ rest.head?, c = ' ')
    (hnumber : kind = .number → w ≠ ['-', '0'] ∨ rest.head? = some '(') :
    token? before (w ++ rest) = some (kind, w, rest) := by
  cases kind with
  | word =>
    rw [token?_name h.1 hrest.nameRest_eq hrest.head?_ne_point, nameKind_of_spells_word h]
  | keyword k =>
    rw [token?_name h.1 hrest.nameRest_eq hrest.head?_ne_point, nameKind_of_spells_keyword h]
  | target => exact token?_target h hrest.nameRest_eq
  | number => exact token?_number h hrest (hnumber rfl)
  | quotation => exact token?_quotation h rest
  | arguments => exact token?_arguments h rest
  | relation => exact token?_relation h (hrelation rfl).1 (hrelation rfl).2
  | point =>
    obtain rfl : w = ['.'] := h
    exact token?_point before rest

/-! ## Blanks at the ends of a token

A word of a line has to come through the trimming of lines and the splitting at blanks.  Names,
targets, numbers and relations have no blanks at all, and quoted texts and argument lists have marks
at their ends. -/

theorem IsName.not_blank {w : List Char} (h : IsName w) : ∀ c ∈ w, isBlank c = false := by
  intro c hc
  rcases h.isNameChar_or_hyphen c hc with h | rfl
  · exact isBlank_of_isNameChar h
  · decide

theorem IsTarget.not_blank {w : List Char} (h : IsTarget w) : ∀ c ∈ w, isBlank c = false := by
  obtain ⟨table, field, ht, hf, rfl⟩ := h
  exact List.forall_mem_append.2 ⟨ht.not_blank, List.forall_mem_cons.2 ⟨by decide, hf.not_blank⟩⟩

theorem IsNumber.not_blank {w : List Char} (h : IsNumber w) : ∀ c ∈ w, isBlank c = false := by
  have hdigits {ds : List Char} (h : IsDigits ds) : ∀ c ∈ ds, isBlank c = false :=
    fun c hc ↦ isBlank_of_isNameChar (isNameChar_of_isDigit (h.2 c hc))
  have hunsigned {cs : List Char} (h : IsUnsigned cs) : ∀ c ∈ cs, isBlank c = false := by
    cases h with
    | whole h => exact hdigits h
    | fraction hd he =>
      exact List.forall_mem_append.2 ⟨hdigits hd, List.forall_mem_cons.2 ⟨by decide, hdigits he⟩⟩
  cases h with
  | unsigned h => exact hunsigned h
  | negative h => exact List.forall_mem_cons.2 ⟨by decide, hunsigned h⟩

theorem IsEnclosed.isTrimmed {opening closing : Char} {w : List Char}
    (h : IsEnclosed opening closing w) (ho : isBlank opening = false)
    (hc : isBlank closing = false) : IsTrimmed w := by
  obtain ⟨body, _, rfl⟩ := h
  refine ⟨fun c hm ↦ ?_, fun c hm ↦ ?_⟩
  · cases hm
    exact ho
  · rw [List.getLast?_concat] at hm
    cases hm
    exact hc

/-- No token is empty, and none starts or ends with a blank. -/
theorem Spells.isTrimmed {kind : TokenKind} {w : List Char} (h : Spells kind w) :
    w ≠ [] ∧ IsTrimmed w := by
  cases kind with
  | word =>
    obtain ⟨c, cs, rfl, _⟩ := h.1.head
    exact ⟨List.cons_ne_nil _ _, isTrimmed_of_not_blank h.1.not_blank⟩
  | keyword k =>
    obtain ⟨c, cs, rfl, _⟩ := h.1.head
    exact ⟨List.cons_ne_nil _ _, isTrimmed_of_not_blank h.1.not_blank⟩
  | target =>
    have htrimmed := isTrimmed_of_not_blank (IsTarget.not_blank h)
    obtain ⟨c, cs, rfl, _⟩ := IsTarget.head h
    exact ⟨List.cons_ne_nil _ _, htrimmed⟩
  | number =>
    refine ⟨?_, isTrimmed_of_not_blank (IsNumber.not_blank h)⟩
    cases h with
    | unsigned h =>
      obtain ⟨c, cs, rfl, _⟩ := h.head
      exact List.cons_ne_nil _ _
    | negative h => exact List.cons_ne_nil _ _
  | quotation =>
    rcases h with h | h
    · exact ⟨by obtain ⟨_, _, rfl⟩ := h; simp, h.isTrimmed (by decide) (by decide)⟩
    · exact ⟨by obtain ⟨_, _, rfl⟩ := h; simp, h.isTrimmed (by decide) (by decide)⟩
  | arguments =>
    exact ⟨by obtain ⟨_, _, rfl⟩ := h; simp, IsEnclosed.isTrimmed h (by decide) (by decide)⟩
  | relation =>
    rcases isRelation_iff.1 h with rfl | rfl | rfl | rfl | rfl | rfl | rfl | rfl | rfl <;>
      exact ⟨by decide, isTrimmed_of_not_blank (not_blank_of_any (by decide))⟩
  | point =>
    obtain rfl : w = ['.'] := h
    exact ⟨by decide, isTrimmed_of_not_blank (not_blank_of_any (by decide))⟩

theorem Spells.isLine {kind : TokenKind} {w : List Char} (h : Spells kind w)
    (hw : IsUnbroken w) : IsLine w := ⟨h.isTrimmed.1, h.isTrimmed.2, hw⟩

theorem IsName.isLine {w : List Char} (h : IsName w) : IsLine w :=
  isLine_of_not_blank (by rintro rfl; exact h.elim) h.not_blank

end ErDiagram.Lexeme
