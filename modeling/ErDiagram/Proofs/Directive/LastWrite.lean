import ErDiagram.Proofs.Directive.Editing

/-!
# The last write wins

Of two directives for one setting that are written into a text one after the other, the second
leaves nothing of the first: the text has the lines that it would have if only the second had been
written (`Directive.lines_set_set`).

Two ways of writing have to agree for this.  The first directive may take the place of a line, and
then the second takes the same place (`Directive.replaceLine_replaceLine`) and even the texts are
the same.  Or the first directive comes last, and then the second takes its place where it would
have come last itself (`Directive.replaceLine_appendLine`).  Taking the place of a line writes all
line breaks anew, and coming last does not, so in this case the texts are the same just in case
there are no breaks but line feeds.

Both directives supersede the same lines, since that depends on their setting alone, and the line of
the first is itself superseded by the second.  So wherever the first one put its line, the second
finds it there: in front of it stands no other line that it would supersede.
-/

set_option autoImplicit false

namespace ErDiagram.Directive

open Text DirectiveLine

/-! ## A line in the place of another

Equations between texts, for any lines.  They say what is left of a text when a line of it is
replaced, depending on whether a line feed stands behind its last line. -/

section Replace

variable {ls : List (List Char)} {text a b : List Char} {i : Nat}

/-- Lines with a line feed behind each, with one of them replaced. -/
theorem replaceLine_unlines (hls : ∀ l ∈ ls, IsUnbroken l) (hi : i < ls.length) (b : List Char) :
    replaceLine (unlines ls) i b = unlines (ls.set i b) := by
  have hne : ls ≠ [] := List.length_pos_iff.1 (by omega)
  have hset : ls.set i b ≠ [] := by
    rwa [← List.length_pos_iff, List.length_set, List.length_pos_iff]
  rw [replaceLine, lines_unlines hls, if_pos (getLast?_unlines hne), unlines_eq_joinLines hset]

/-- Lines with a line feed between any two, with one of them replaced. -/
theorem replaceLine_joinLines (hls : ∀ l ∈ ls, IsUnbroken l) (hi : ls[i]? = some a) (ha : a ≠ [])
    (b : List Char) : replaceLine (joinLines ls) i b = joinLines (ls.set i b) := by
  rcases List.eq_nil_or_concat' ls with rfl | ⟨init, last, rfl⟩
  · cases hi
  obtain ⟨hinit, hlast⟩ := List.forall_mem_append.1 hls
  have hlast := List.forall_mem_singleton.1 hlast
  rw [joinLines_concat]
  by_cases hempty : last = []
  · -- nothing stands behind the last line feed, so the text has one line less
    subst hempty
    have hlt : i < init.length := by
      refine Nat.lt_of_not_le fun hle ↦ ha ?_
      rw [List.getElem?_append_right hle] at hi
      exact List.mem_singleton.1 (List.mem_of_getElem? hi)
    rw [List.append_nil, replaceLine_unlines hinit hlt, List.set_append_left _ _ hlt,
      joinLines_concat, List.append_nil]
  · have hend : (unlines init ++ last).getLast? ≠ some '\n' := by
      rw [List.getLast?_append_of_ne_nil _ hempty]
      intro hfeed
      cases hlast '\n' (List.mem_of_getLast? hfeed)
    rw [replaceLine, lines_unlines_append hinit, lines_eq_singleton hlast hempty, if_neg hend,
      List.append_nil]

/-- **A line that takes the place of another** gives way to a third as if it had never been
there. -/
theorem replaceLine_replaceLine (ha : IsUnbroken a) (hne : a ≠ []) (hi : i < (lines text).length)
    (b : List Char) : replaceLine (replaceLine text i a) i b = replaceLine text i b := by
  have hunbroken : ∀ l ∈ (lines text).set i a, IsUnbroken l := by
    intro l hl
    rcases List.mem_or_eq_of_mem_set hl with hl | rfl
    · exact isUnbroken_of_mem_lines hl
    · exact ha
  have hset (l : List Char) : (lines text).set i l ≠ [] := by
    rw [← List.length_pos_iff, List.length_set]
    omega
  -- the last line is closed by a line feed or by the end of the text, both times as it was
  by_cases hlast : text.getLast? = some '\n'
  · have hreplaced (l : List Char) : replaceLine text i l = unlines ((lines text).set i l) := by
      rw [replaceLine, if_pos hlast, unlines_eq_joinLines (hset l)]
    rw [hreplaced, hreplaced, replaceLine_unlines hunbroken (by rwa [List.length_set]),
      List.set_set]
  · have hreplaced (l : List Char) : replaceLine text i l = joinLines ((lines text).set i l) := by
      rw [replaceLine, if_neg hlast, List.append_nil]
    rw [hreplaced, hreplaced, replaceLine_joinLines hunbroken (List.getElem?_set_self hi) hne,
      List.set_set]

/-- **A line that was put behind a text** gives way to another.  What stands in front of it is then
written anew, with line feeds for its breaks. -/
theorem replaceLine_appendLine (ha : IsUnbroken a) (text b : List Char) :
    replaceLine (appendLine text a) (lines (closed text)).length b =
      unlines (lines (closed text)) ++ b ++ ['\n'] := by
  have hend : (appendLine text a).getLast? = some '\n' := by
    rw [appendLine_eq_closed, List.getLast?_concat]
  have hset : (lines (closed text) ++ [a]).set (lines (closed text)).length b =
      lines (closed text) ++ [b] := by simp
  rw [replaceLine, if_pos hend, lines_appendLine ha, hset, unlines_eq_joinLines (by simp),
    unlines_append, unlines_cons, unlines_nil, List.append_assoc]

/-- A line feed that ends the last line is no other break. -/
theorem forall_mem_closed_iff : (∀ c ∈ closed text, isLineBreak c = true → c = '\n') ↔
    ∀ c ∈ text, isLineBreak c = true → c = '\n' := by
  rw [closed]
  split
  · rfl
  · simp [or_imp, forall_and]

end Replace

/-! ## The line that the second directive supersedes

Where the second directive looks for its line, in the text that the first one was written into. -/

variable {d e : Directive} {l m : DirectiveLine} {text : String} {i : Nat}

/-- Two directives for one setting supersede the same lines. -/
theorem supersedes_congr (hl : d.Says l) (hm : e.Says m) (h : d.setting = e.setting) :
    d.supersedes = e.supersedes := by
  funext line
  rw [Bool.eq_iff_iff, supersedes_iff hl, supersedes_iff hm, h]

/-- A directive supersedes the line that is written for it. -/
theorem supersedes_text (hl : d.Says l) : d.supersedes l.text = true :=
  (supersedes_iff hl).2 ⟨l, recognise?_trim_text hl.wellFormed, hl.setting⟩

theorem supersedes_nil (hl : d.Says l) : d.supersedes [] = false := by
  refine Bool.eq_false_iff.2 fun h ↦ ?_
  obtain ⟨m, hm, -⟩ := (supersedes_iff hl).1 h
  cases hm

/-! ### Finding the line again

The first line that is superseded is at the same place afterwards if it was there before, and behind
all lines if there was none. -/

/-- A line that takes the place of the first with some property is the first itself if it has this
property. -/
theorem findIdx?_set {ls : List (List Char)} {p : List Char → Bool} {a : List Char}
    (h : ls.findIdx? p = some i) (ha : p a = true) : (ls.set i a).findIdx? p = some i := by
  obtain ⟨hi, _, hbefore⟩ := List.findIdx?_eq_some_iff_getElem.1 h
  refine List.findIdx?_eq_some_iff_getElem.2 ⟨by rwa [List.length_set], ?_, fun j hj ↦ ?_⟩
  · rwa [List.getElem_set_self]
  · rw [List.getElem_set_ne (Nat.ne_of_gt hj)]
    exact hbefore j hj

/-- A line that took the place of another is found in this place. -/
theorem findIdx?_replaceLine {text : List Char} (hl : d.Says l)
    (h : (lines text).findIdx? d.supersedes = some i) :
    (lines (replaceLine text i l.text)).findIdx? d.supersedes = some i := by
  obtain ⟨hi, -⟩ := List.findIdx?_eq_some_iff_getElem.1 h
  obtain ⟨n, hn⟩ := lines_replaceLine (isRemark_text hl.wellFormed).unbroken hi
  have hset := findIdx?_set h (supersedes_text hl)
  rw [← hn, List.findIdx?_append, List.findIdx?_replicate, supersedes_nil hl] at hset
  simpa using hset

/-- A line that came last is found behind the others. -/
theorem findIdx?_appendLine {text : List Char} (hl : d.Says l)
    (h : (lines text).findIdx? d.supersedes = none) :
    (lines (appendLine text l.text)).findIdx? d.supersedes =
      some (lines (closed text)).length := by
  obtain ⟨n, hn⟩ := exists_lines_closed text
  have hnone : (lines (closed text)).findIdx? d.supersedes = none := by
    rw [hn, List.findIdx?_append, h, List.findIdx?_replicate, supersedes_nil hl]
    simp
  rw [lines_appendLine (isRemark_text hl.wellFormed).unbroken, List.findIdx?_append, hnone]
  simp [List.findIdx?_cons, supersedes_text hl]

/-! ## Two directives for one setting

The two cases of the search put together with the equations above. -/

section Set

variable {line line' : String}

theorem set_of_some (hline : d.readableLine = .ok (some line))
    (h : (lines text.toList).findIdx? d.supersedes = some i) :
    d.set text = .ok (String.ofList (replaceLine text.toList i line.toList)) := by
  rw [set, hline]
  show Except.ok _ = _
  rw [h]

theorem set_of_none (hline : d.readableLine = .ok (some line))
    (h : (lines text.toList).findIdx? d.supersedes = none) :
    d.set text = .ok (String.ofList (appendLine text.toList line.toList)) := by
  rw [set, hline]
  show Except.ok _ = _
  rw [h]

/-- Where a line is superseded, nothing is left of a directive written before. -/
theorem set_set_of_some (hd : d.readableLine = .ok (some line))
    (he : e.readableLine = .ok (some line')) (hsame : d.supersedes = e.supersedes)
    (h : (lines text.toList).findIdx? e.supersedes = some i) :
    ∃ once, d.set text = .ok once ∧ e.set once = e.set text := by
  obtain ⟨l, hl, hline⟩ := exists_says hd
  have hremark := isRemark_text hl.wellFormed
  obtain ⟨hi, -⟩ := List.findIdx?_eq_some_iff_getElem.1 h
  have hagain := findIdx?_replaceLine hl (hsame ▸ h)
  rw [hsame, ← hline, ← String.toList_ofList (l := replaceLine _ _ _)] at hagain
  refine ⟨_, set_of_some hd (hsame ▸ h), ?_⟩
  rw [set_of_some he hagain, set_of_some he h, String.toList_ofList, hline,
    replaceLine_replaceLine hremark.unbroken hremark.ne_nil hi]

/-- Where no line is superseded, a directive written before has its line superseded, and the breaks
of the text have become line feeds. -/
theorem set_set_of_none (hd : d.readableLine = .ok (some line))
    (he : e.readableLine = .ok (some line')) (hsame : d.supersedes = e.supersedes)
    (h : (lines text.toList).findIdx? e.supersedes = none) :
    ∃ once, d.set text = .ok once ∧ e.set once =
      .ok (String.ofList (unlines (lines (closed text.toList)) ++ line'.toList ++ ['\n'])) := by
  obtain ⟨l, hl, hline⟩ := exists_says hd
  have hagain := findIdx?_appendLine hl (hsame ▸ h)
  rw [hsame, ← hline, ← String.toList_ofList (l := appendLine _ _)] at hagain
  refine ⟨_, set_of_none hd (hsame ▸ h), ?_⟩
  rw [set_of_some he hagain, String.toList_ofList, hline,
    replaceLine_appendLine (isRemark_text hl.wellFormed).unbroken]

end Set

/-- **The last write wins.**  Of two directives for one setting, whatever the text, the second
leaves the same lines behind whether the first was written before it or not.  The texts themselves
are the same just in case the directive takes the place of a line of the text, or line feeds are the
only breaks of the text. -/
theorem lines_set_set {line line' : String} (hd : d.readableLine = .ok (some line))
    (he : e.readableLine = .ok (some line')) (hsetting : d.setting = e.setting) (text : String) :
    ∃ once twice direct, d.set text = .ok once ∧ e.set once = .ok twice ∧
      e.set text = .ok direct ∧ lines twice.toList = lines direct.toList ∧
      (twice = direct ↔ (∃ l ∈ lines text.toList, e.supersedes l = true) ∨
        ∀ c ∈ text.toList, isLineBreak c = true → c = '\n') := by
  obtain ⟨l, hl, -⟩ := exists_says hd
  obtain ⟨m, hm, hline'⟩ := exists_says he
  have hsame := supersedes_congr hl hm hsetting
  cases hfound : (lines text.toList).findIdx? e.supersedes with
  | some i =>
    obtain ⟨once, honce, htwice⟩ := set_set_of_some hd he hsame hfound
    have hdirect := set_of_some he hfound
    obtain ⟨hi, hold, -⟩ := List.findIdx?_eq_some_iff_getElem.1 hfound
    exact ⟨once, _, _, honce, htwice.trans hdirect, hdirect, rfl,
      iff_of_true rfl (.inl ⟨_, List.getElem_mem hi, hold⟩)⟩
  | none =>
    obtain ⟨once, honce, htwice⟩ := set_set_of_none hd he hsame hfound
    have hdirect := set_of_none he hfound
    -- no line is superseded, so the first line goes to the end and the second takes its place
    have hremark := isRemark_text hm.wellFormed
    have hnone : ¬∃ l ∈ lines text.toList, e.supersedes l = true := by
      simpa using List.findIdx?_eq_none_iff.1 hfound
    rw [appendLine_eq_closed] at hdirect
    refine ⟨once, _, _, honce, htwice, hdirect, ?_, ?_⟩
    · rw [String.toList_ofList, String.toList_ofList, hline', List.append_assoc,
        lines_unlines_append fun _ ↦ isUnbroken_of_mem_lines,
        lines_append_lineFeed hremark.unbroken, lines_nil, ← appendLine_eq_closed,
        lines_appendLine hremark.unbroken]
    · rw [String.ofList_inj, List.append_cancel_right_eq, List.append_cancel_right_eq,
        unlines_lines_eq_iff (closed_eq_nil_or _), forall_mem_closed_iff, or_iff_right hnone]

/-- A table that is placed and then moved, in a text that ends with a vertical tab.  The lines are
as if it had been moved only; but the break has become a line feed. -/
theorem lines_set_set_verticalTab :
    (position "a" ⟨.int 1, .int 1, none⟩).readableLine = .ok (some "# a (1, 1)") ∧
      moved.readableLine = .ok (some "# a (5, 5)") ∧
      (position "a" ⟨.int 1, .int 1, none⟩).setting = moved.setting ∧
      ∃ once twice direct,
        (position "a" ⟨.int 1, .int 1, none⟩).set "post\x0b" = .ok once ∧
        moved.set once = .ok twice ∧ moved.set "post\x0b" = .ok direct ∧
        lines twice.toList = lines direct.toList ∧ twice ≠ direct := by
  have hplaced : (position "a" ⟨.int 1, .int 1, none⟩).readableLine = .ok (some "# a (1, 1)") := by
    decide +kernel
  have hnone : (lines "post\x0b".toList).any moved.supersedes = false := by decide +kernel
  have htab : '\x0b' ∈ "post\x0b".toList := by decide
  obtain ⟨once, twice, direct, honce, htwice, hdirect, hlines, hsame⟩ :=
    lines_set_set hplaced readableLine_moved rfl "post\x0b"
  refine ⟨hplaced, readableLine_moved, rfl, once, twice, direct, honce, htwice, hdirect, hlines,
    fun h ↦ ?_⟩
  rcases hsame.1 h with ⟨l, hl, hold⟩ | hbreaks
  · exact List.any_eq_false.1 hnone l hl hold
  · exact absurd (hbreaks _ htab (by decide)) (by decide)

end ErDiagram.Directive
