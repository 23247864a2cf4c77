import ErDiagram.FieldLine.Token
import ErDiagram.Proofs.Text.Lines

/-!
# How the parts of a line are spelled

Names, targets, numbers, quoted texts and argument lists, each described without the reader
(`IsName`, `IsTarget`, `IsNumber`, `IsQuotation`, `IsArguments`).  What a reader takes off a text is
spelled as described, and what is spelled so is taken off whole where the text behind it does not
go on in the same way.

For every kind of spelling there are the same two lemmas.  `isX_of_x?` is soundness: whatever the
rule takes off is spelled so.  `x?_append` is completeness: a text spelled so is taken off whole,
provided that the text behind it does not go on in a way that would make it longer.  What it takes
for that differs from rule to rule, and each lemma asks for no more than its rule needs, since the
callers have very different texts behind it.  Where other rules come later, a third lemma,
`x?_of_head`, says by which first characters a rule can be told not to apply.
-/

set_option autoImplicit false

namespace ErDiagram.Lexeme

open Text

/-! ## Names

A name starts with a letter or `_` and goes on with letters, digits, `_`, `$` and single hyphens
that have such a character behind them.  `IsNameRest` builds the rest from the front, with a hyphen
and the character behind it in one step, so that a hyphen at the end or two in a row cannot be
built.  The lemmas about code points separate names from digits, points, blanks and marks. -/

/-- What may stand behind the first character of a name: further characters, and hyphens with a
character behind each. -/
inductive IsNameRest : List Char → Prop
  | nil : IsNameRest []
  | char {c : Char} {cs : List Char} (hc : isNameChar c = true) (h : IsNameRest cs) :
      IsNameRest (c :: cs)
  | hyphen {c : Char} {cs : List Char} (hc : isNameChar c = true) (h : IsNameRest cs) :
      IsNameRest ('-' :: c :: cs)

/-- A name. -/
def IsName : List Char → Prop
  | [] => False
  | c :: cs => isNameStart c = true ∧ IsNameRest cs

theorem toNat_of_isAlpha {c : Char} (h : c.isAlpha = true) :
    (0x41 ≤ c.toNat ∧ c.toNat ≤ 0x5A) ∨ (0x61 ≤ c.toNat ∧ c.toNat ≤ 0x7A) := by
  delta Char.isAlpha Char.isUpper Char.isLower at h
  simp only [ge_iff_le, Bool.or_eq_true, Bool.and_eq_true, decide_eq_true_eq,
    UInt32.le_iff_toNat_le] at h
  exact h

theorem toNat_of_isDigit {c : Char} (h : c.isDigit = true) :
    0x30 ≤ c.toNat ∧ c.toNat ≤ 0x39 := Char.isDigit_iff_toNat.1 h

theorem isNameChar_of_isNameStart {c : Char} (h : isNameStart c = true) : isNameChar c = true := by
  simp only [isNameStart, isNameChar, Char.isAlphanum, Bool.or_eq_true] at h ⊢
  exact .inl (h.imp_left .inl)

theorem isNameChar_of_isDigit {c : Char} (h : c.isDigit = true) : isNameChar c = true := by
  simp [isNameChar, Char.isAlphanum, h]

theorem toNat_of_isNameStart {c : Char} (h : isNameStart c = true) :
    (0x41 ≤ c.toNat ∧ c.toNat ≤ 0x5A) ∨ c.toNat = 0x5F ∨ (0x61 ≤ c.toNat ∧ c.toNat ≤ 0x7A) := by
  simp only [isNameStart, Bool.or_eq_true, beq_iff_eq] at h
  rcases h with h | rfl
  · exact (toNat_of_isAlpha h).imp_right .inr
  · exact .inr (.inl rfl)

theorem toNat_of_isNameChar {c : Char} (h : isNameChar c = true) :
    c.toNat = 0x24 ∨ (0x30 ≤ c.toNat ∧ c.toNat ≤ 0x39) ∨ (0x41 ≤ c.toNat ∧ c.toNat ≤ 0x5A) ∨
      c.toNat = 0x5F ∨ (0x61 ≤ c.toNat ∧ c.toNat ≤ 0x7A) := by
  simp only [isNameChar, Char.isAlphanum, Bool.or_eq_true, beq_iff_eq] at h
  rcases h with ((h | h) | rfl) | rfl
  · have := toNat_of_isAlpha h
    omega
  · exact .inr (.inl (toNat_of_isDigit h))
  · exact .inr (.inr (.inr (.inl rfl)))
  · exact .inl rfl

theorem isDigit_of_isNameStart {c : Char} (h : isNameStart c = true) : c.isDigit = false := by
  refine Bool.eq_false_iff.2 ?_
  intro hd
  have h1 := toNat_of_isNameStart h
  have h2 := toNat_of_isDigit hd
  omega

theorem isBlank_of_isNameChar {c : Char} (h : isNameChar c = true) : isBlank c = false := by
  have := toNat_of_isNameChar h
  simp only [isBlank, Bool.or_eq_false_iff, Bool.and_eq_false_iff, decide_eq_false_iff_not,
    beq_eq_false_iff_ne, ne_eq]
  omega

/-! ### Parts of a name

What stands in a name, what its beginnings look like, and what may be put behind it.  A beginning is
a name as well, or a name with one hyphen behind it; either may be left of a name when its ending
`_id` is taken off. -/

theorem IsNameRest.isNameChar_or_hyphen {cs : List Char} (h : IsNameRest cs) :
    ∀ c ∈ cs, isNameChar c = true ∨ c = '-' := by
  induction h with
  | nil => exact List.forall_mem_nil _
  | char hc _ ih => exact List.forall_mem_cons.2 ⟨.inl hc, ih⟩
  | hyphen hc _ ih =>
    exact List.forall_mem_cons.2 ⟨.inr rfl, List.forall_mem_cons.2 ⟨.inl hc, ih⟩⟩

theorem IsName.isNameChar_or_hyphen {w : List Char} (h : IsName w) :
    ∀ c ∈ w, isNameChar c = true ∨ c = '-' := by
  cases w with
  | nil => exact h.elim
  | cons c cs =>
    exact List.forall_mem_cons.2 ⟨.inl (isNameChar_of_isNameStart h.1), h.2.isNameChar_or_hyphen⟩

/-- No point stands in a name. -/
theorem IsName.ne_point {w : List Char} (h : IsName w) : ∀ c ∈ w, c ≠ '.' := by
  rintro c hc rfl
  exact absurd (h.isNameChar_or_hyphen '.' hc) (by decide)

/-- What stands before a place in a name is a name, up to a hyphen at the end. -/
theorem IsNameRest.of_append {w rest : List Char} (h : IsNameRest (w ++ rest)) :
    IsNameRest w ∨ ∃ v, IsNameRest v ∧ w = v ++ ['-'] := by
  generalize hcs : w ++ rest = cs at h
  induction h generalizing w with
  | nil =>
    obtain rfl := (List.append_eq_nil_iff.1 hcs).1
    exact .inl .nil
  | @char c cs hc _ ih =>
    cases w with
    | nil => exact .inl .nil
    | cons d w =>
      obtain ⟨rfl, hw⟩ := List.cons.inj hcs
      rcases ih hw with h | ⟨v, hv, rfl⟩
      · exact .inl (.char hc h)
      · exact .inr ⟨d :: v, .char hc hv, rfl⟩
  | @hyphen c cs hc _ ih =>
    rcases w with _ | ⟨d, _ | ⟨e, w⟩⟩
    · exact .inl .nil
    · -- the cut is right behind the hyphen
      obtain ⟨rfl, _⟩ := List.cons.inj hcs
      exact .inr ⟨[], .nil, rfl⟩
    · obtain ⟨rfl, hw⟩ := List.cons.inj hcs
      obtain ⟨rfl, htail⟩ := List.cons.inj hw
      rcases ih htail with h | ⟨v, hv, rfl⟩
      · exact .inl (.hyphen hc h)
      · exact .inr ⟨'-' :: e :: v, .hyphen hc hv, rfl⟩

theorem IsName.of_append {w rest : List Char} (h : IsName (w ++ rest)) :
    w = [] ∨ IsName w ∨ ∃ v, IsName v ∧ w = v ++ ['-'] := by
  cases w with
  | nil => exact .inl rfl
  | cons c w =>
    obtain ⟨hc, hrest⟩ := h
    rcases IsNameRest.of_append hrest with h | ⟨v, hv, rfl⟩
    · exact .inr (.inl ⟨hc, h⟩)
    · exact .inr (.inr ⟨c :: v, ⟨hc, hv⟩, rfl⟩)

/-- A name with more characters of a name behind it is a name. -/
theorem IsNameRest.append {cs v : List Char} (h : IsNameRest cs)
    (hv : ∀ c ∈ v, isNameChar c = true) : IsNameRest (cs ++ v) := by
  induction h with
  | nil =>
    induction v with
    | nil => exact .nil
    | cons c v ih =>
      obtain ⟨hc, hv⟩ := List.forall_mem_cons.1 hv
      exact .char hc (ih hv)
  | char hc _ ih => exact .char hc ih
  | hyphen hc _ ih => exact .hyphen hc ih

theorem IsName.append {w v : List Char} (h : IsName w) (hv : ∀ c ∈ v, isNameChar c = true) :
    IsName (w ++ v) := by
  cases w with
  | nil => exact h.elim
  | cons c w => exact ⟨h.1, h.2.append hv⟩

/-! ### Reading a name

`nameRest` decides at a hyphen by the next character alone.  The lemmas `nameRest_cons_char`,
`nameRest_cons_hyphen` and `nameRest_cons_stop` are its three cases; a name ends before `rest` if
`nameRest rest` takes nothing, which is the form in which the lemmas below ask for it. -/

theorem nameRest_cons_char {c : Char} (hc : isNameChar c = true) (cs : List Char) :
    nameRest (c :: cs) = (c :: (nameRest cs).1, (nameRest cs).2) := by
  rw [nameRest, if_pos (by simp [hc])]

theorem nameRest_cons_hyphen {c : Char} (hc : isNameChar c = true) (cs : List Char) :
    nameRest ('-' :: c :: cs) = ('-' :: (nameRest (c :: cs)).1, (nameRest (c :: cs)).2) := by
  rw [nameRest, if_pos (by simp [hc])]

/-- A name ends before a character that cannot continue it. -/
theorem nameRest_cons_stop {c : Char} {cs : List Char} (hc : isNameChar c = false)
    (hcs : c = '-' → ∀ d ∈ cs.head?, isNameChar d = false) :
    nameRest (c :: cs) = ([], c :: cs) := by
  rw [nameRest, if_neg]
  by_cases h : c = '-'
  · cases cs with
    | nil => simp [hc]
    | cons d cs => simp [hc, hcs h d rfl]
  · simp [hc, h]

theorem nameRest_append {cs rest : List Char} (h : IsNameRest cs)
    (hrest : nameRest rest = ([], rest)) : nameRest (cs ++ rest) = (cs, rest) := by
  induction h with
  | nil => exact hrest
  | char hc _ ih => rw [List.cons_append, nameRest_cons_char hc, ih]
  | hyphen hc _ ih =>
    rw [List.cons_append, List.cons_append, nameRest_cons_hyphen hc, nameRest_cons_char hc, ih]

theorem IsNameRest.of_cons {c : Char} {cs : List Char} (hc : isNameChar c = true)
    (h : IsNameRest (c :: cs)) : IsNameRest cs := by
  cases h with
  | char _ h => exact h
  | hyphen _ _ => exact absurd hc (by decide)

theorem isNameRest_nameRest (cs : List Char) : IsNameRest (nameRest cs).1 := by
  induction cs with
  | nil => exact .nil
  | cons c cs ih =>
    by_cases hc : isNameChar c = true
    · rw [nameRest_cons_char hc]
      exact .char hc ih
    · by_cases hcs : c = '-' ∧ cs.head?.any isNameChar = true
      · obtain ⟨rfl, hd⟩ := hcs
        cases cs with
        | nil => cases hd
        | cons d ds =>
          have hd : isNameChar d = true := hd
          rw [nameRest_cons_hyphen hd]
          rw [nameRest_cons_char hd] at ih ⊢
          exact .hyphen hd (ih.of_cons hd)
      · rw [nameRest_cons_stop (by simpa using hc)]
        · exact .nil
        · intro h d hd
          rw [not_and, Bool.not_eq_true] at hcs
          have := hcs h
          rwa [Option.mem_def.1 hd] at this

theorem name?_append {w rest : List Char} (h : IsName w) (hrest : nameRest rest = ([], rest)) :
    name? (w ++ rest) = some (w, rest) := by
  cases w with
  | nil => exact h.elim
  | cons c cs => rw [List.cons_append, name?, if_pos h.1, nameRest_append h.2 hrest]

theorem isName_of_name? {cs : List Char} {cut : Cut} (h : name? cs = some cut) :
    IsName cut.1 := by
  cases cs with
  | nil => cases h
  | cons c cs =>
    rw [name?] at h
    split at h
    · next hc =>
      obtain rfl := Option.some.inj h
      exact ⟨hc, isNameRest_nameRest cs⟩
    · cases h

/-! ## Targets

A target is read as a name, a point and another name.  The first name stops at the point of itself,
as no name contains one, so the condition on the text behind is that for the second name. -/

/-- Two names with a point between them. -/
def IsTarget (cs : List Char) : Prop :=
  ∃ table field, IsName table ∧ IsName field ∧ cs = table ++ '.' :: field

theorem nameRest_point (cs : List Char) : nameRest ('.' :: cs) = ([], '.' :: cs) :=
  nameRest_cons_stop (by decide) fun h ↦ absurd h (by decide)

theorem target?_append {w rest : List Char} (h : IsTarget w) (hrest : nameRest rest = ([], rest)) :
    target? (w ++ rest) = some (w, rest) := by
  obtain ⟨table, field, ht, hf, rfl⟩ := h
  rw [List.append_assoc, List.cons_append, target?, name?_append ht (nameRest_point _)]
  simp only [name?_append hf hrest, Option.map_some]

theorem isTarget_of_target? {cs : List Char} {cut : Cut} (h : target? cs = some cut) :
    IsTarget cut.1 := by
  rw [target?] at h
  split at h
  · next table rest ht =>
    obtain ⟨⟨field, rest'⟩, hf, rfl⟩ := Option.map_eq_some_iff.1 h
    exact ⟨table, field, isName_of_name? ht, isName_of_name? hf, rfl⟩
  · cases h

/-- A name without a point behind it is no target. -/
theorem target?_name {w rest : List Char} (h : IsName w) (hrest : nameRest rest = ([], rest))
    (hpoint : rest.head? ≠ some '.') : target? (w ++ rest) = none := by
  rw [target?, name?_append h hrest]
  split
  · next heq =>
    cases heq
    exact absurd rfl hpoint
  · rfl

/-! ## Numbers

A whole number ends before anything but a digit, but if a point stands behind it, then what follows
the point decides whether it belongs to the number.  So the text behind a number may start with
neither a digit nor a point. -/

/-- At least one digit. -/
def IsDigits (ds : List Char) : Prop := ds ≠ [] ∧ ∀ c ∈ ds, c.isDigit = true

/-- A number without a sign. -/
inductive IsUnsigned : List Char → Prop
  | whole {ds : List Char} (h : IsDigits ds) : IsUnsigned ds
  | fraction {ds es : List Char} (hd : IsDigits ds) (he : IsDigits es) :
      IsUnsigned (ds ++ '.' :: es)

/-- A number. -/
inductive IsNumber : List Char → Prop
  | unsigned {cs : List Char} (h : IsUnsigned cs) : IsNumber cs
  | negative {cs : List Char} (h : IsUnsigned cs) : IsNumber ('-' :: cs)

theorem digits?_append {ds rest : List Char} (h : IsDigits ds)
    (hrest : ∀ c ∈ rest.head?, c.isDigit = false) : digits? (ds ++ rest) = some (ds, rest) := by
  rw [digits?, takeWhile_run h.2 hrest, dropWhile_run h.2 hrest]
  exact if_neg (by simpa using h.1)

theorem isDigits_of_digits? {cs : List Char} {cut : Cut} (h : digits? cs = some cut) :
    IsDigits cut.1 := by
  rw [digits?] at h
  split at h
  · cases h
  · next hne =>
    obtain rfl := Option.some.inj h
    exact ⟨by simpa using hne, fun c ↦ of_mem_takeWhile⟩

theorem digits?_of_head {cs : List Char} (h : ∀ c ∈ cs.head?, c.isDigit = false) :
    digits? cs = none := by
  rw [digits?, ← List.nil_append cs, takeWhile_run (List.forall_mem_nil _) h]
  rfl

theorem unsigned?_append {w rest : List Char} (h : IsUnsigned w)
    (hrest : ∀ c ∈ rest.head?, c.isDigit = false ∧ c ≠ '.') :
    unsigned? (w ++ rest) = some (w, rest) := by
  have hdigit : ∀ c ∈ rest.head?, c.isDigit = false := fun c hc ↦ (hrest c hc).1
  cases h with
  | whole h =>
    rw [unsigned?, digits?_append h hdigit]
    split
    · next heq =>
      cases heq
      exact absurd rfl (hrest '.' rfl).2
    · rfl
  | @fraction ds es hd he =>
    rw [List.append_assoc, List.cons_append, unsigned?,
      digits?_append hd fun c hc ↦ by cases hc; decide]
    simp only [digits?_append he hdigit]

theorem isUnsigned_of_unsigned? {cs : List Char} {cut : Cut} (h : unsigned? cs = some cut) :
    IsUnsigned cut.1 := by
  rw [unsigned?] at h
  split at h
  · next whole rest hw =>
    split at h
    · next fraction rest' hf =>
      obtain rfl := Option.some.inj h
      exact .fraction (isDigits_of_digits? hw) (isDigits_of_digits? hf)
    · obtain rfl := Option.some.inj h
      exact .whole (isDigits_of_digits? hw)
  · exact .whole (isDigits_of_digits? h)

/-- A number without a sign starts with a digit, and goes on with a digit or a point. -/
theorem IsUnsigned.head {w : List Char} (h : IsUnsigned w) :
    ∃ c cs, w = c :: cs ∧ c.isDigit = true ∧ ∀ d ∈ cs.head?, d.isDigit = true ∨ d = '.' := by
  cases h with
  | whole h =>
    obtain ⟨c, cs, rfl⟩ := List.exists_cons_of_ne_nil h.1
    exact ⟨c, cs, rfl, h.2 c List.mem_cons_self, fun d hd ↦
      .inl (h.2 d (List.mem_cons_of_mem _ (List.mem_of_head? hd)))⟩
  | @fraction ds es h _ =>
    obtain ⟨c, cs, rfl⟩ := List.exists_cons_of_ne_nil h.1
    refine ⟨c, cs ++ '.' :: es, rfl, h.2 c List.mem_cons_self, ?_⟩
    intro d hd
    cases cs with
    | nil => exact .inr (Option.some.inj hd).symm
    | cons e cs =>
      obtain rfl := Option.some.inj hd
      exact .inl (h.2 e (by simp))

theorem number?_append {w rest : List Char} (h : IsNumber w)
    (hrest : ∀ c ∈ rest.head?, c.isDigit = false ∧ c ≠ '.') :
    number? (w ++ rest) = some (w, rest) := by
  cases h with
  | negative h => rw [List.cons_append, number?, unsigned?_append h hrest]; rfl
  | unsigned h =>
    obtain ⟨c, cs, rfl, hc, _⟩ := h.head
    rw [number?.eq_def]
    split
    · next heq =>
      cases heq
      exact absurd hc (by decide)
    · exact unsigned?_append h hrest

theorem isNumber_of_number? {cs : List Char} {cut : Cut} (h : number? cs = some cut) :
    IsNumber cut.1 := by
  rw [number?.eq_def] at h
  split at h
  · obtain ⟨⟨n, rest⟩, hn, rfl⟩ := Option.map_eq_some_iff.1 h
    exact .negative (isUnsigned_of_unsigned? hn)
  · exact .unsigned (isUnsigned_of_unsigned? h)

/-- A number starts with a digit or a minus sign. -/
theorem number?_of_head {cs : List Char} (h : ∀ c ∈ cs.head?, c.isDigit = false ∧ c ≠ '-') :
    number? cs = none := by
  rw [number?.eq_def]
  split
  · exact absurd rfl (h '-' rfl).2
  · rw [unsigned?, digits?_of_head fun c hc ↦ (h c hc).1]

/-! ## Quoted texts and argument lists

These end at the first closing mark, whatever stands behind it.  They are the only tokens that can
contain blanks, and the only ones that are complete without a condition on the text behind them. -/

/-- A text between an opening and a closing mark, without the closing one inside. -/
def IsEnclosed (opening closing : Char) (cs : List Char) : Prop :=
  ∃ body, closing ∉ body ∧ cs = opening :: body ++ [closing]

/-- A quoted text. -/
def IsQuotation (cs : List Char) : Prop := IsEnclosed '\'' '\'' cs ∨ IsEnclosed '"' '"' cs

/-- An argument list. -/
def IsArguments (cs : List Char) : Prop := IsEnclosed '(' ')' cs

section Enclosed

variable {opening closing : Char}

theorem enclosed?_append {w : List Char} (h : IsEnclosed opening closing w) (rest : List Char) :
    enclosed? opening closing (w ++ rest) = some (w, rest) := by
  obtain ⟨body, hbody, rfl⟩ := h
  have hrun : ∀ c ∈ body, (decide (c ≠ closing)) = true := fun c hc ↦
    decide_eq_true fun he ↦ hbody (he ▸ hc)
  have hstop : ∀ c ∈ (closing :: rest).head?, (decide (c ≠ closing)) = false := by simp
  rw [List.append_assoc, List.singleton_append, List.cons_append, enclosed?, if_pos rfl,
    dropWhile_run hrun hstop]
  simp only [takeWhile_run hrun hstop]

theorem isEnclosed_of_enclosed? {cs : List Char} {cut : Cut}
    (h : enclosed? opening closing cs = some cut) : IsEnclosed opening closing cut.1 := by
  cases cs with
  | nil => cases h
  | cons c cs =>
    rw [enclosed?] at h
    split at h
    · next hc =>
      split at h
      · cases h
      · next mark rest hd =>
        obtain rfl := Option.some.inj h
        have hmark : mark = closing := by
          have := List.head?_dropWhile_not (decide <| · ≠ closing) cs
          rw [hd] at this
          simpa using this
        refine ⟨cs.takeWhile (· ≠ closing), fun hm ↦ ?_, by rw [hc, hmark]⟩
        exact absurd rfl (of_decide_eq_true (of_mem_takeWhile hm))
    · cases h

theorem enclosed?_of_head {cs : List Char} (h : ∀ c ∈ cs.head?, c ≠ opening) :
    enclosed? opening closing cs = none := by
  cases cs with
  | nil => rfl
  | cons c cs => exact if_neg (h c rfl)

end Enclosed

theorem quotation?_append {w : List Char} (h : IsQuotation w) (rest : List Char) :
    quotation? (w ++ rest) = some (w, rest) := by
  rcases h with h | h
  · rw [quotation?, enclosed?_append h, Option.some_or]
  · rw [quotation?, enclosed?_append h, enclosed?_of_head, Option.none_or]
    obtain ⟨body, _, rfl⟩ := h
    intro c hc
    cases hc
    decide

theorem isQuotation_of_quotation? {cs : List Char} {cut : Cut} (h : quotation? cs = some cut) :
    IsQuotation cut.1 :=
  (Option.or_eq_some_iff.1 h).imp isEnclosed_of_enclosed? fun h ↦ isEnclosed_of_enclosed? h.2

theorem quotation?_of_head {cs : List Char} (h : ∀ c ∈ cs.head?, c ≠ '\'' ∧ c ≠ '"') :
    quotation? cs = none := by
  rw [quotation?, enclosed?_of_head fun c hc ↦ (h c hc).1,
    enclosed?_of_head fun c hc ↦ (h c hc).2]
  rfl

end ErDiagram.Lexeme
