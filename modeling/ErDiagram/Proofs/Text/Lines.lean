import ErDiagram.Text.Blank
import ErDiagram.Text.Lines
import ErDiagram.Text.Word

/-!
# Putting lines together and taking them apart

`unlines` writes lines with a line feed behind each.  Of lines that hold no break `lines` gives back
just those lines (`lines_unlines`), and lines taken from any text hold no break
(`isUnbroken_of_mem_lines`).  A text behind a line feed has lines of its own, whatever stands in
front (`exists_lines_append_lineFeed`).  A line is *trimmed* when no blank stands at either of its
ends: `trim` gives such a line (`isTrimmed_trim`) and leaves one alone (`IsTrimmed.trim_eq`).  What
is written as a line and left alone when it is read is an `IsLine`.

A text can have breaks of many kinds, while all that is written has line feeds alone.  This is why
lines come apart as they were put together, but a text put together from its lines is not always the
text there was (`unlines_lines_eq_iff`), and why texts set one behind the other keep their lines
only if a line feed stands between them: a carriage return at the end of one and a line feed at the
start of the other would be a single break.

What the readers of directives, of tables and of the names of columns need to know of `lines` and
`trim` is here, so that they hardly ever have to look into either.
-/

set_option autoImplicit false

namespace ErDiagram.Text

/-! ## Runs of characters

A reader takes characters off the front of a text as long as they have some property.  What it takes
is what was written there, provided that the text behind does not go on in the same way; this
proviso is about the first character behind alone. -/

section Run

variable {p : Char → Bool} {l rest : List Char}

/-- A run that ends where the text behind it begins is taken off whole. -/
theorem takeWhile_run (hl : ∀ c ∈ l, p c = true) (hrest : ∀ c ∈ rest.head?, p c = false) :
    (l ++ rest).takeWhile p = l := by
  rw [List.takeWhile_append_of_pos hl]
  cases rest with
  | nil => exact List.append_nil l
  | cons c rest => rw [List.takeWhile_cons_of_neg (by simp [hrest c rfl]), List.append_nil]

theorem dropWhile_run (hl : ∀ c ∈ l, p c = true) (hrest : ∀ c ∈ rest.head?, p c = false) :
    (l ++ rest).dropWhile p = rest := by
  rw [List.dropWhile_append_of_pos hl]
  cases rest with
  | nil => rfl
  | cons c rest => exact List.dropWhile_cons_of_neg (by simp [hrest c rfl])

theorem of_mem_takeWhile {c : Char} (h : c ∈ l.takeWhile p) : p c = true :=
  List.all_eq_true.1 List.all_takeWhile c h

end Run

/-! ## Lines

Two ways of setting lines below each other: with a line feed behind each (`unlines`), and with a
line feed between any two (`joinLines`).  The first is the one to compute with, since it goes along
with `++`; the second is what is written, and it lacks nothing but the last line feed. -/

/-- No character of a text breaks a line. -/
def IsUnbroken (l : List Char) : Prop := ∀ c ∈ l, isLineBreak c = false

theorem isUnbroken_nil : IsUnbroken [] := List.forall_mem_nil _

theorem IsUnbroken.append {l m : List Char} (hl : IsUnbroken l) (hm : IsUnbroken m) :
    IsUnbroken (l ++ m) := List.forall_mem_append.2 ⟨hl, hm⟩

theorem IsUnbroken.of_append_left {l m : List Char} (h : IsUnbroken (l ++ m)) : IsUnbroken l :=
  (List.forall_mem_append.1 h).1

theorem IsUnbroken.of_append_right {l m : List Char} (h : IsUnbroken (l ++ m)) : IsUnbroken m :=
  (List.forall_mem_append.1 h).2

theorem IsUnbroken.of_cons {c : Char} {l : List Char} (h : IsUnbroken (c :: l)) : IsUnbroken l :=
  (List.forall_mem_cons.1 h).2

theorem IsUnbroken.of_sublist {l m : List Char} (h : IsUnbroken m) (hs : l.Sublist m) :
    IsUnbroken l := fun c hc ↦ h c (hs.subset hc)

/-- Lines with a line feed behind each. -/
def unlines (ls : List (List Char)) : List Char := ls.flatMap (· ++ ['\n'])

@[simp]
theorem unlines_nil : unlines [] = [] := rfl

@[simp]
theorem unlines_cons (l : List Char) (ls : List (List Char)) :
    unlines (l :: ls) = l ++ '\n' :: unlines ls := by simp [unlines]

@[simp]
theorem unlines_append (ls ms : List (List Char)) :
    unlines (ls ++ ms) = unlines ls ++ unlines ms := List.flatMap_append

/-- Lines that are joined lack the last line feed. -/
theorem unlines_eq_joinLines {ls : List (List Char)} (hne : ls ≠ []) :
    joinLines ls ++ ['\n'] = unlines ls := by
  induction ls with
  | nil => exact absurd rfl hne
  | cons l ls ih =>
    cases ls with
    | nil => simp [joinLines, List.intercalate]
    | cons m ms =>
      have hsplit : joinLines (l :: m :: ms) = l ++ '\n' :: joinLines (m :: ms) := by
        simp [joinLines, List.intercalate]
      rw [hsplit, List.append_assoc, List.cons_append, ih (by simp), unlines_cons l]

theorem joinLines_concat (ls : List (List Char)) (l : List Char) :
    joinLines (ls ++ [l]) = unlines ls ++ l := by
  have hne : ls ++ [l] ≠ [] := by simp
  have hjoined : joinLines (ls ++ [l]) ++ ['\n'] = unlines ls ++ l ++ ['\n'] := by
    rw [unlines_eq_joinLines hne, unlines_append, unlines_cons, unlines_nil, List.append_assoc]
  exact List.append_cancel_right hjoined

theorem getLast?_unlines {ls : List (List Char)} (hne : ls ≠ []) :
    (unlines ls).getLast? = some '\n' := by
  rw [← unlines_eq_joinLines hne, List.getLast?_concat]

/-! ### Taking lines apart

The recursion of `lines`, said for a character that breaks no line and for a whole line with a line
feed behind it. -/

theorem lines_cons {c : Char} {cs : List Char} (hc : isLineBreak c = false) :
    lines (c :: cs) = (c :: (lines cs).headD []) :: (lines cs).tail := by
  have hne : c ≠ '\r' := by rintro rfl; exact absurd hc (by decide)
  rw [lines.eq_def]
  split
  · next h => cases h
  · next h => exact absurd (List.cons.inj h).1 hne
  · next h =>
    obtain ⟨rfl, rfl⟩ := List.cons.inj h
    rw [if_neg (by simp [hc])]
    cases lines cs <;> rfl

/-- A line feed ends a line. -/
theorem lines_append_lineFeed {l : List Char} (hl : IsUnbroken l) (cs : List Char) :
    lines (l ++ '\n' :: cs) = l :: lines cs := by
  induction l with
  | nil =>
    rw [List.nil_append, lines.eq_def]
    split
    · next h => cases h
    · next h => cases h
    · next h =>
      obtain ⟨rfl, rfl⟩ := List.cons.inj h
      exact if_pos (by decide)
  | cons c l ih =>
    obtain ⟨hc, hl⟩ := List.forall_mem_cons.1 hl
    rw [List.cons_append, lines_cons hc, ih hl]
    rfl

/-- A text behind lines that are ended keeps its own lines. -/
theorem lines_unlines_append {ls : List (List Char)} (h : ∀ l ∈ ls, IsUnbroken l)
    (rest : List Char) : lines (unlines ls ++ rest) = ls ++ lines rest := by
  induction ls with
  | nil => rfl
  | cons l ls ih =>
    obtain ⟨hl, hls⟩ := List.forall_mem_cons.1 h
    rw [unlines_cons, List.append_assoc, List.cons_append, lines_append_lineFeed hl, ih hls]
    rfl

theorem lines_unlines {ls : List (List Char)} (h : ∀ l ∈ ls, IsUnbroken l) :
    lines (unlines ls) = ls := by
  rw [← List.append_nil (unlines ls), lines_unlines_append h, lines_nil, List.append_nil]

theorem lines_eq_singleton {l : List Char} (h : IsUnbroken l) (hne : l ≠ []) : lines l = [l] := by
  induction l with
  | nil => exact absurd rfl hne
  | cons c l ih =>
    obtain ⟨hc, hl⟩ := List.forall_mem_cons.1 h
    rw [lines_cons hc]
    by_cases hnil : l = []
    · subst hnil
      rfl
    · rw [ih hl hnil]
      rfl

theorem isUnbroken_of_mem_lines {cs l : List Char} (h : l ∈ lines cs) : IsUnbroken l := by
  fun_induction lines cs generalizing l with
  | case1 => cases h
  | case2 cs ih =>
    rcases List.mem_cons.1 h with rfl | h
    · exact isUnbroken_nil
    · exact ih h
  | case3 c cs _ hc ih =>
    rcases List.mem_cons.1 h with rfl | h
    · exact isUnbroken_nil
    · exact ih h
  | case4 c cs _ hc hnil ih =>
    obtain rfl := List.mem_singleton.1 h
    exact List.forall_mem_cons.2 ⟨by simpa using hc, isUnbroken_nil⟩
  | case5 c cs _ hc m ms hcons ih =>
    rw [hcons] at ih
    rcases List.mem_cons.1 h with rfl | h
    · exact List.forall_mem_cons.2 ⟨by simpa using hc, ih List.mem_cons_self⟩
    · exact ih (List.mem_cons_of_mem _ h)

/-! ### A text behind another

Of two texts set one behind the other the lines are those of the two, if the first ends with a line
feed.  If a line feed is put between them, there may be empty lines as well, but how many does not
depend on the second text, so a reader that passes over empty lines reads the same. -/

theorem eq_nil_of_lines {cs : List Char} (h : lines cs = []) : cs = [] := by
  rw [lines.eq_def] at h
  split at h
  · rfl
  · cases h
  · split at h
    · cases h
    · split at h <;> cases h

theorem lines_break {c : Char} {cs : List Char} (hc : isLineBreak c = true)
    (h : c = '\r' → cs.head? ≠ some '\n') : lines (c :: cs) = [] :: lines cs := by
  rw [lines.eq_def]
  split
  · next heq => cases heq
  · next heq =>
    obtain ⟨rfl, rfl⟩ := List.cons.inj heq
    exact absurd rfl (h rfl)
  · next heq =>
    obtain ⟨rfl, rfl⟩ := List.cons.inj heq
    exact if_pos hc

/-- A line feed behind a text ends its last line.  Where some other break has ended that line
before, an empty line comes in between. -/
theorem exists_lines_append_lineFeed (cs : List Char) : ∃ n, ∀ rest,
    lines (cs ++ '\n' :: rest) = lines cs ++ List.replicate n [] ++ lines rest := by
  fun_induction lines cs with
  | case1 => exact ⟨1, fun rest ↦ lines_append_lineFeed isUnbroken_nil rest⟩
  | case2 cs ih =>
    obtain ⟨n, hn⟩ := ih
    refine ⟨n, fun rest ↦ ?_⟩
    show [] :: lines (cs ++ '\n' :: rest) = _
    rw [hn rest]
    rfl
  | case3 c cs hpair hc ih =>
    -- a carriage return at the end and the line feed behind it are one break
    by_cases hlast : c = '\r' ∧ cs = []
    · obtain ⟨rfl, rfl⟩ := hlast
      exact ⟨0, fun rest ↦ rfl⟩
    · obtain ⟨n, hn⟩ := ih
      refine ⟨n, fun rest ↦ ?_⟩
      rw [List.cons_append, lines_break hc, hn rest]
      · rfl
      · intro hr
        cases cs with
        | nil => exact absurd ⟨hr, rfl⟩ hlast
        | cons d ds =>
          intro hd
          exact hpair ds hr (by rw [Option.some.inj hd])
  | case4 c cs _ hc hnil ih =>
    obtain rfl := eq_nil_of_lines hnil
    have hunbroken : IsUnbroken [c] :=
      List.forall_mem_cons.2 ⟨by simpa using hc, isUnbroken_nil⟩
    exact ⟨0, fun rest ↦ lines_append_lineFeed hunbroken rest⟩
  | case5 c cs _ hc m ms hcons ih =>
    obtain ⟨n, hn⟩ := ih
    refine ⟨n, fun rest ↦ ?_⟩
    rw [List.cons_append, lines_cons (by simpa using hc), hn rest, hcons]
    rfl

/-- A text behind one that ends with a line feed keeps its own lines. -/
theorem lines_append_of_getLast? {cs : List Char} (h : cs.getLast? = some '\n')
    (rest : List Char) : lines (cs ++ rest) = lines cs ++ lines rest := by
  obtain ⟨init, rfl⟩ := List.getLast?_eq_some_iff.1 h
  obtain ⟨n, hn⟩ := exists_lines_append_lineFeed init
  rw [List.append_assoc, List.singleton_append, hn rest, hn [], lines_nil, List.append_nil]

/-- A text that ends with a line feed, if at all, is made of its lines just in case it has no other
breaks. -/
theorem unlines_lines_eq_iff {cs : List Char} (hlast : cs = [] ∨ cs.getLast? = some '\n') :
    unlines (lines cs) = cs ↔ ∀ c ∈ cs, isLineBreak c = true → c = '\n' := by
  constructor
  · intro h c hc hbreak
    rw [← h] at hc
    obtain ⟨l, hl, hc⟩ := List.mem_flatMap.1 hc
    rcases List.mem_append.1 hc with hc | hc
    · rw [isUnbroken_of_mem_lines hl c hc] at hbreak
      cases hbreak
    · exact List.mem_singleton.1 hc
  · intro h
    -- what is left of the text behind its first character ends in the same way
    have htail {c : Char} {cs : List Char} (hcons : c :: cs = [] ∨ (c :: cs).getLast? = some '\n') :
        cs = [] ∨ cs.getLast? = some '\n' := by
      cases cs with
      | nil => exact .inl rfl
      | cons d cs => exact .inr (by simpa using hcons)
    fun_induction lines cs with
    | case1 => rfl
    | case2 cs ih => exact absurd (h '\r' List.mem_cons_self (by decide)) (by decide)
    | case3 c cs _ hc ih =>
      obtain ⟨hfeed, hcs⟩ := List.forall_mem_cons.1 h
      obtain rfl := hfeed hc
      rw [unlines_cons, ih (htail hlast) hcs]
      rfl
    | case4 c cs _ hc hnil ih =>
      -- a last line without a line feed is excluded by the assumption
      obtain rfl := eq_nil_of_lines hnil
      have hfeed : c = '\n' := by simpa using hlast
      exact absurd (hfeed ▸ hc) (by decide)
    | case5 c cs _ hc l ls hcons ih =>
      rw [hcons] at ih
      rw [unlines_cons, List.cons_append, ← unlines_cons,
        ih (htail hlast) (List.forall_mem_cons.1 h).2]

/-- Lines that are joined are taken apart again, but for empty ones at the end. -/
theorem exists_lines_joinLines {ls : List (List Char)} (hne : ls ≠ [])
    (h : ∀ l ∈ ls, IsUnbroken l) : ∃ n, lines (joinLines ls) ++ List.replicate n [] = ls := by
  obtain ⟨n, hn⟩ := exists_lines_append_lineFeed (joinLines ls)
  refine ⟨n, ?_⟩
  have hjoined := hn []
  rw [unlines_eq_joinLines hne, lines_unlines h, lines_nil, List.append_nil] at hjoined
  exact hjoined.symm

/-! ## Blanks at the ends of a line

Lines are read without the blanks around them.  As every character that breaks a line is blank, a
trimmed line of any text is a line that could have been written. -/

/-- Neither the first nor the last character of a text is blank. -/
def IsTrimmed (l : List Char) : Prop :=
  (∀ c ∈ l.head?, isBlank c = false) ∧ ∀ c ∈ l.getLast?, isBlank c = false

theorem trimStart_eq_self {l : List Char} (h : ∀ c ∈ l.head?, isBlank c = false) :
    trimStart l = l := by
  cases l with
  | nil => rfl
  | cons c l => exact List.dropWhile_cons_of_neg (by simp [h c rfl])

theorem trimEnd_eq_self {l : List Char} (h : ∀ c ∈ l.getLast?, isBlank c = false) :
    trimEnd l = l := by
  have hr : l.reverse.dropWhile isBlank = l.reverse :=
    trimStart_eq_self fun c hc ↦ h c (by rwa [List.head?_reverse] at hc)
  rw [trimEnd, hr, List.reverse_reverse]

theorem IsTrimmed.trim_eq {l : List Char} (h : IsTrimmed l) : trim l = l := by
  rw [trim, trimStart_eq_self h.1, trimEnd_eq_self h.2]

theorem isBlank_of_mem_head?_dropWhile {l : List Char} {c : Char}
    (h : c ∈ (l.dropWhile isBlank).head?) : isBlank c = false := by
  have := List.head?_dropWhile_not isBlank l
  rw [Option.mem_def.1 h] at this
  exact this

/-- Taking blanks off the end leaves a beginning. -/
theorem trim_prefix (l : List Char) : trim l <+: trimStart l := by
  rw [trim, trimEnd, ← List.reverse_suffix, List.reverse_reverse]
  exact List.dropWhile_suffix _

theorem isTrimmed_trim (l : List Char) : IsTrimmed (trim l) := by
  constructor
  · intro c hc
    obtain ⟨m, hm⟩ := trim_prefix l
    refine isBlank_of_mem_head?_dropWhile (l := l) ?_
    rw [← trimStart, ← hm, List.head?_append, Option.mem_def.1 hc]
    rfl
  · intro c hc
    rw [trim, trimEnd, List.getLast?_reverse] at hc
    exact isBlank_of_mem_head?_dropWhile hc

/-- A line that starts with no blank starts the same without the blanks around it. -/
theorem head?_trim_ne {l : List Char} (hblank : ∀ c ∈ l.head?, isBlank c = false) {c : Char}
    (h : l.head? ≠ some c) : (trim l).head? ≠ some c := by
  intro hc
  obtain ⟨m, hm⟩ := trim_prefix l
  refine h ?_
  rw [← trimStart_eq_self hblank, ← hm, List.head?_append, hc]
  rfl

theorem trim_sublist (l : List Char) : (trim l).Sublist l := by
  have hend : (trim l).Sublist (trimStart l) := by
    rw [trim, trimEnd, ← List.reverse_sublist, List.reverse_reverse]
    exact List.dropWhile_sublist _
  exact hend.trans (List.dropWhile_sublist _)

/-! ## Lines that are written

What a name or a value has to be like so that it is read as it was written.  The blanks of Unicode
are few, so that no blank stands in a word is a matter of checking each of them (`blankCodes`); the
letters are many and are not gone through. -/

/-- The code points of the blanks. -/
def blankCodes : List Nat :=
  List.range' 0x09 5 ++ List.range' 0x1C 5 ++ List.range' 0x2000 11 ++
    [0x85, 0xA0, 0x1680, 0x2028, 0x2029, 0x202F, 0x205F, 0x3000]

theorem toNat_mem_blankCodes {c : Char} (h : isBlank c = true) : c.toNat ∈ blankCodes := by
  have hrange {n m k : Nat} (h : n ≤ m ∧ m < n + k) : m ∈ List.range' n k := List.mem_range'_1.2 h
  simp only [isBlank, Bool.or_eq_true, Bool.and_eq_true, decide_eq_true_eq, beq_iff_eq] at h
  simp only [blankCodes, List.mem_append]
  rcases h with ((((((((((h | h) | h) | h) | h) | h) | h) | h) | h) | h)) | h
  · exact .inl (.inl (.inl (hrange (by omega))))
  · exact .inl (.inl (.inr (hrange (by omega))))
  · exact .inr (by simp [h])
  · exact .inr (by simp [h])
  · exact .inr (by simp [h])
  · exact .inl (.inr (hrange (by omega)))
  all_goals exact .inr (by simp [h])

theorem isWordChar_of_isDigit {c : Char} (h : c.isDigit = true) : isWordChar c = true := by
  have hcode := (Char.isDigit_iff_toNat.1 h).2
  have hascii : c.toNat < 0x80 := Nat.lt_of_le_of_lt hcode (by decide)
  rw [isWordChar, if_pos hascii]
  simp [Char.isAlphanum, h]

theorem isWord_iff {w : List Char} : isWord w = true ↔ w ≠ [] ∧ ∀ c ∈ w, isWordChar c = true := by
  simp [isWord]

/-- No blank stands in a word. -/
theorem isBlank_of_isWordChar {c : Char} (h : isWordChar c = true) : isBlank c = false := by
  have hcodes : ∀ n ∈ blankCodes, isWordChar (Char.ofNat n) = false := by decide +kernel
  refine Bool.eq_false_iff.2 ?_
  intro hb
  have := hcodes _ (toNat_mem_blankCodes hb)
  rw [Char.ofNat_toNat, h] at this
  cases this

/-- A text that is left alone when it is written as a line: something that neither breaks nor starts
or ends with a blank. -/
structure IsLine (l : List Char) : Prop where
  /-- There is a character. -/
  ne_nil : l ≠ []
  /-- Neither end is blank. -/
  trimmed : IsTrimmed l
  /-- No character breaks a line. -/
  unbroken : IsUnbroken l

theorem isLineBreak_of_not_blank {c : Char} (h : isBlank c = false) : isLineBreak c = false := by
  simp only [isBlank, isLineBreak, Bool.or_eq_false_iff, Bool.and_eq_false_iff,
    decide_eq_false_iff_not, beq_eq_false_iff_ne, ne_eq] at h ⊢
  omega

theorem isTrimmed_of_not_blank {l : List Char} (h : ∀ c ∈ l, isBlank c = false) : IsTrimmed l :=
  ⟨fun c hc ↦ h c (List.mem_of_head? hc), fun c hc ↦ h c (List.mem_of_getLast? hc)⟩

theorem isLine_of_not_blank {l : List Char} (hne : l ≠ []) (h : ∀ c ∈ l, isBlank c = false) :
    IsLine l :=
  ⟨hne, isTrimmed_of_not_blank h, fun c hc ↦ isLineBreak_of_not_blank (h c hc)⟩

/-- A given text is checked for blanks by a test, which can be computed. -/
theorem not_blank_of_any {l : List Char} (h : l.any isBlank = false) :
    ∀ c ∈ l, isBlank c = false := by
  intro c hc
  simpa using List.any_eq_false.1 h c hc

theorem isUnbroken_of_any {l : List Char} (h : l.any isLineBreak = false) : IsUnbroken l := by
  intro c hc
  simpa using List.any_eq_false.1 h c hc

theorem isLine_of_any {l : List Char} (hne : l ≠ []) (h : l.any isBlank = false) : IsLine l :=
  isLine_of_not_blank hne (not_blank_of_any h)

/-- Two lines with an unbroken text between them. -/
theorem IsLine.append {l m k : List Char} (hl : IsLine l) (hm : IsUnbroken m) (hk : IsLine k) :
    IsLine (l ++ m ++ k) := by
  obtain ⟨c, cs, rfl⟩ := List.exists_cons_of_ne_nil hl.ne_nil
  refine ⟨List.cons_ne_nil _ _, ⟨fun d hd ↦ hl.trimmed.1 d hd, fun d hd ↦ hk.trimmed.2 d ?_⟩,
    (hl.unbroken.append hm).append hk.unbroken⟩
  rwa [List.getLast?_append, List.getLast?_eq_some_getLast hk.ne_nil, Option.some_or,
    ← List.getLast?_eq_some_getLast hk.ne_nil] at hd

theorem IsLine.append_line {l k : List Char} (hl : IsLine l) (hk : IsLine k) :
    IsLine (l ++ k) := by
  have := hl.append isUnbroken_nil hk
  rwa [List.append_nil] at this

/-- A line that starts with a number sign. -/
structure IsRemark (l : List Char) : Prop extends IsLine l where
  /-- It starts with a number sign. -/
  head : l.head? = some '#'

/-- A remark starts with a number sign and may end with any line. -/
theorem isRemark_append {m k : List Char} (hhead : m.head? = some '#') (hm : IsUnbroken m)
    (hk : IsLine k) : IsRemark (m ++ k) := by
  cases m with
  | nil => cases hhead
  | cons c m =>
    obtain rfl := Option.some.inj hhead
    have hhash : IsLine ['#'] := isLine_of_any (by decide) (by decide)
    exact ⟨hhash.append (m := m) hm.of_cons hk, rfl⟩

end ErDiagram.Text
