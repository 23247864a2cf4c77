import ErDiagram.Directive.Edit
import ErDiagram.Proofs.Presentation.Heeded

/-!
# Writing a directive into a text

A line that is written takes the place of the first line that makes a claim to its setting, or comes
last when there is none (`Directive.exists_rewritten`).  The lines of the text that make no such
claim stay, and stay in their order (`Directive.Rewritten.filter_ofLines`).  So the text can be read
if it could be read before (`Directive.Rewritten.exists_read`), and every other setting is as it was
(`Directive.Rewritten.get?_of_ne`).

Of a slot that holds one value the first line counts, and this is the one that was written.  Of a
table the last position counts: where a text has two position lines for a table, the first is
overwritten, the last is read, and the update is lost (`Directive.readBack_iff`).

An edit is said of the lines of a text: `Directive.Rewritten` relates the lines before to the lines
afterwards, with the two ways in which a line can come into a text as its two cases.  Empty lines
may come or go at the end, which is left open there because it does not matter to any reader.
Everything that is claimed of an edit follows from this relation, and the texts themselves are not
looked at again.
-/

set_option autoImplicit false

namespace ErDiagram

open Text

namespace Directive

/-! ## Lines that are superseded

Whether a line is superseded is decided by comparing its beginning, for a position without asking
whether the name is a word.  As the line that is written was recognised, its own name is a word, and
then the comparison finds the lines for the same setting and no others (`supersedes_iff`). -/

/-- A well-formed directive line that can be written for a directive. -/
structure Says (d : Directive) (l : DirectiveLine) : Prop where
  /-- It has the form of a directive line. -/
  wellFormed : l.WellFormed
  /-- It makes a claim to the setting of the directive. -/
  setting : l.setting = d.setting
  /-- It has a value. -/
  value : ∃ e, l.value = .ok e

/-- A line that is written is a well-formed directive line with a value. -/
theorem exists_says {d : Directive} {line : String} (h : d.readableLine = .ok (some line)) :
    ∃ l, d.Says l ∧ line.toList = l.text := by
  obtain ⟨e, ⟨l, htext, hwf, he⟩, hsetting⟩ := exists_denotes_of_readableLine h
  exact ⟨l, ⟨hwf, (DirectiveLine.setting_of_value he).symm.trans hsetting, e, he⟩, htext⟩

/-- A position line of a table is a line for the position of this table. -/
theorem isPositionLineOf_iff {table : String} (h : isWord table.toList = true) {cs : List Char} :
    isPositionLineOf table cs = true ↔
      ∃ m, DirectiveLine.recognise? cs = some m ∧ m.setting = .position table := by
  rw [isPositionLineOf, Option.isSome_iff_exists]
  constructor
  · rintro ⟨⟨x, y, tint⟩, hplace⟩
    obtain ⟨rest, hopening, hplace⟩ := Option.bind_eq_some_iff.1 hplace
    obtain ⟨hx, hy, htint, rfl⟩ := Recognise.place?_eq_some hplace
    have hwf : (DirectiveLine.position table.toList x y tint).WellFormed := ⟨h, hx, hy, htint⟩
    have htext : cs = (DirectiveLine.position table.toList x y tint).text := by
      rw [literal?_eq_some_iff.1 hopening, DirectiveLine.text_position]
      simp
    exact ⟨.position table.toList x y tint, htext ▸ DirectiveLine.recognise?_text hwf,
      congrArg Setting.position String.ofList_toList⟩
  · rintro ⟨m, hm, hsetting⟩
    obtain ⟨hwf, rfl⟩ := DirectiveLine.of_recognise? hm
    cases m with
    | view | zoom | color => cases hsetting
    | position T x y tint =>
      obtain rfl := Setting.position.inj hsetting
      obtain ⟨-, hx, hy, htint⟩ := hwf
      refine ⟨_, Option.bind_eq_some_iff.2 ⟨_, literal?_eq_some_iff.2 ?_,
        Recognise.place?_placeText hx hy htint⟩⟩
      rw [DirectiveLine.text_position]
      simp

/-- **A line is superseded** just in case it makes a claim to the setting. -/
theorem supersedes_iff {d : Directive} {l : DirectiveLine} (hl : d.Says l) {line : List Char} :
    d.supersedes line = true ↔
      ∃ m, DirectiveLine.recognise? (trim line) = some m ∧ m.setting = d.setting := by
  -- a scalar has one setting only, so the slot settles which setting a line is about
  have hscalar (hd : d.slot ≠ .position) : (d.slot.recognise? (trim line)).isSome = true ↔
      ∃ m, DirectiveLine.recognise? (trim line) = some m ∧ m.setting = d.setting := by
    rw [Option.isSome_iff_exists]
    refine exists_congr fun m ↦ ?_
    rw [DirectiveLine.slot_recognise?_eq_some_iff]
    refine and_congr_right fun _ ↦ ⟨fun h ↦ ?_, fun h ↦ ?_⟩
    · exact DirectiveLine.setting_eq_of_slot_eq h (by rwa [h])
    · rw [← m.slot_setting, h, d.slot_setting]
  cases d with
  | view | zoom | color => exact hscalar (by simp [slot])
  | position table place =>
    refine isPositionLineOf_iff ?_
    obtain ⟨hwf, hsetting, -⟩ := hl
    cases l with
    | view | zoom | color => cases hsetting
    | position T x y tint =>
      obtain rfl := Setting.position.inj hsetting
      rw [String.toList_ofList]
      exact hwf.1

/-! ## The lines of the text that results

Writing a line in the place of another joins the lines again, writing it at the end leaves them
alone.  In either case the lines of the result are the lines there were, with one replaced or one
added. -/

/-- Lines with a line written into them: in the place of the first line that it supersedes, or
behind them when there is none.  Empty lines may be lost at the end of the text, or come in before
the line behind it. -/
inductive Rewritten (d : Directive) (line : List Char) :
    List (List Char) → List (List Char) → Prop where
  /-- The line takes the place of another. -/
  | replaced {before after ls : List (List Char)} {old : List Char} (n : Nat)
    (hbefore : ∀ l ∈ before, d.supersedes l = false) (hold : d.supersedes old = true)
    (hls : ls ++ List.replicate n [] = before ++ line :: after) :
    Rewritten d line (before ++ old :: after) ls
  /-- The line comes last. -/
  | appended {ls : List (List Char)} (n : Nat) (hls : ∀ l ∈ ls, d.supersedes l = false) :
    Rewritten d line ls (ls ++ List.replicate n [] ++ [line])

/-- A text up to where a line is put behind it: its last line is ended. -/
def closed (text : List Char) : List Char :=
  if text.isEmpty ∨ text.getLast? = some '\n' then text else text ++ ['\n']

theorem appendLine_eq_closed (text line : List Char) :
    appendLine text line = closed text ++ line ++ ['\n'] := by
  rw [appendLine, closed]
  split
  · rfl
  · rw [List.append_cons text]

theorem closed_eq_nil_or (text : List Char) :
    closed text = [] ∨ (closed text).getLast? = some '\n' := by
  rw [closed]
  split
  · next h => exact h.imp_left List.isEmpty_iff.1
  · exact .inr List.getLast?_concat

theorem exists_lines_closed (text : List Char) :
    ∃ n, lines (closed text) = lines text ++ List.replicate n [] := by
  rw [closed]
  split
  · exact ⟨0, (List.append_nil _).symm⟩
  · obtain ⟨n, hn⟩ := exists_lines_append_lineFeed text
    exact ⟨n, (hn []).trans (List.append_nil _)⟩

theorem lines_appendLine {line : List Char} (hline : IsUnbroken line) (text : List Char) :
    lines (appendLine text line) = lines (closed text) ++ [line] := by
  have hlast : lines (line ++ ['\n']) = [line] := lines_append_lineFeed hline []
  rw [appendLine_eq_closed, List.append_assoc]
  rcases closed_eq_nil_or text with h | h
  · rw [h]
    exact hlast
  · rw [lines_append_of_getLast? h, hlast]

theorem lines_replaceLine {text line : List Char} {i : Nat} (hline : IsUnbroken line)
    (hi : i < (lines text).length) :
    ∃ n, lines (replaceLine text i line) ++ List.replicate n [] = (lines text).set i line := by
  have hne : (lines text).set i line ≠ [] := by
    rw [← List.length_pos_iff, List.length_set]
    omega
  have hunbroken : ∀ l ∈ (lines text).set i line, IsUnbroken l := by
    intro l hl
    rcases List.mem_or_eq_of_mem_set hl with h | rfl
    · exact isUnbroken_of_mem_lines h
    · exact hline
  rw [replaceLine]
  split
  · refine ⟨0, ?_⟩
    rw [unlines_eq_joinLines hne, lines_unlines hunbroken, List.replicate_zero, List.append_nil]
  · rw [List.append_nil]
    exact exists_lines_joinLines hne hunbroken

/-- The first line that is superseded, with the lines around it. -/
theorem exists_of_findIdx? {d : Directive} {ls : List (List Char)} {i : Nat}
    (h : ls.findIdx? d.supersedes = some i) (line : List Char) :
    i < ls.length ∧ ∃ before old after, ls = before ++ old :: after ∧
      ls.set i line = before ++ line :: after ∧
      (∀ l ∈ before, d.supersedes l = false) ∧ d.supersedes old = true := by
  obtain ⟨hi, hold, hbefore⟩ := List.findIdx?_eq_some_iff_getElem.1 h
  refine ⟨hi, ls.take i, ls[i], ls.drop (i + 1), ?_, ?_, ?_, hold⟩
  · rw [← List.drop_eq_getElem_cons hi, List.take_append_drop]
  · rw [List.set_eq_take_append_cons_drop, if_pos hi]
  · intro l hl
    obtain ⟨j, hj, rfl⟩ := List.mem_take_iff_getElem.1 hl
    have hlt : j < i := by omega
    simpa using hbefore j hlt

/-- **A directive with a readable line is written into any text.** -/
theorem exists_rewritten {d : Directive} {line : String}
    (h : d.readableLine = .ok (some line)) (text : String) : ∃ text', d.set text = .ok text' ∧
      Rewritten d line.toList (lines text.toList) (lines text'.toList) := by
  obtain ⟨l, hl, htext⟩ := exists_says h
  have hline : IsUnbroken line.toList :=
    htext ▸ (DirectiveLine.isRemark_text hl.wellFormed).unbroken
  rw [set, h]
  refine ⟨_, rfl, ?_⟩
  rw [String.toList_ofList]
  split
  · next i hi =>
    obtain ⟨hlength, before, old, after, hls, hset, hbefore, hold⟩ :=
      exists_of_findIdx? hi line.toList
    obtain ⟨n, hn⟩ := lines_replaceLine hline hlength
    rw [hls]
    exact .replaced n hbefore hold (hn.trans hset)
  · next hnone =>
    obtain ⟨n, hn⟩ := exists_lines_closed text.toList
    rw [lines_appendLine hline, hn]
    exact .appended n (List.findIdx?_eq_none_iff.1 hnone)

/-! ## What is claimed afterwards

The lines of a text make claims to settings, and for each setting some of these are heeded
(`ErDiagram.Proofs.Presentation.Heeded`).  An edit puts its own claim in the place of the first for
its setting and leaves all others; what is read afterwards is read off that. -/

open DirectiveLine

variable {d : Directive} {l : DirectiveLine} {ls ls' : List (List Char)} {k : Setting}

theorem ofLines_replicate_nil (n : Nat) : ofLines (List.replicate n []) = [] := by
  refine List.filterMap_eq_nil_iff.2 ?_
  intro line hline
  rw [List.eq_of_mem_replicate hline]
  rfl

/-- Lines that are not superseded make no claim to the setting. -/
theorem filter_ofLines_eq_nil (hl : d.Says l) (h : ∀ line ∈ ls, d.supersedes line = false) :
    (ofLines ls).filter (·.setting = d.setting) = [] := by
  rw [List.filter_eq_nil_iff]
  intro m hm hsetting
  obtain ⟨line, hline, hrec⟩ := List.mem_filterMap.1 hm
  have hsupersedes := (supersedes_iff hl).2 ⟨m, hrec, by simpa using hsetting⟩
  rw [h line hline] at hsupersedes
  cases hsupersedes

/-- **The claims in a text that a line was written into.**  For its own setting the line takes the
place of the first claim; no claim for any other setting comes or goes. -/
theorem Rewritten.filter_ofLines (h : Rewritten d l.text ls ls') (hl : d.Says l) (k : Setting) :
    (ofLines ls').filter (·.setting = k) =
      if k = d.setting then l :: ((ofLines ls).filter (·.setting = k)).tail
      else (ofLines ls).filter (·.setting = k) := by
  cases h with
  | @replaced before after ls' old n hbefore hold hls =>
    obtain ⟨m, hm, hsetting⟩ := (supersedes_iff hl).1 hold
    have hnew : ofLines ls' = ofLines before ++ l :: ofLines after := by
      have hlines := congrArg ofLines hls
      rw [ofLines_append, ofLines_replicate_nil, List.append_nil, ofLines_append] at hlines
      rw [hlines]
      exact congrArg _ (List.filterMap_cons_some (recognise?_trim_text hl.wellFormed))
    -- the old line said something of the same setting, so the lists differ in this place alone
    have hwas : ofLines (before ++ old :: after) = ofLines before ++ m :: ofLines after := by
      rw [ofLines_append]
      exact congrArg _ (List.filterMap_cons_some hm)
    rw [hnew, hwas, List.filter_append, List.filter_append]
    split
    · next hk =>
      subst hk
      rw [filter_ofLines_eq_nil hl hbefore, List.filter_cons_of_pos (by simpa using hl.setting),
        List.filter_cons_of_pos (by simpa using hsetting)]
      rfl
    · next hk =>
      rw [List.filter_cons_of_neg (by simpa [hl.setting, eq_comm] using hk),
        List.filter_cons_of_neg (by simpa [hsetting, eq_comm] using hk)]
  | appended n hls =>
    have hnew : ofLines (ls ++ List.replicate n [] ++ [l.text]) = ofLines ls ++ [l] := by
      rw [ofLines_append, ofLines_append, ofLines_replicate_nil, List.append_nil]
      exact congrArg _ (List.filterMap_cons_some (recognise?_trim_text hl.wellFormed))
    rw [hnew, List.filter_append]
    split
    · next hk =>
      subst hk
      rw [filter_ofLines_eq_nil hl hls, List.filter_cons_of_pos (by simpa using hl.setting)]
      rfl
    · next hk =>
      rw [List.filter_cons_of_neg (by simpa [hl.setting, eq_comm] using hk), List.filter_nil,
        List.append_nil]

/-- Other settings are heeded as before. -/
theorem Rewritten.heeded_of_ne (h : Rewritten d l.text ls ls') (hl : d.Says l)
    (hk : k ≠ d.setting) : heeded k (ofLines ls') = heeded k (ofLines ls) := by
  rw [heeded, heeded, h.filter_ofLines hl, if_neg hk]

/-- Of the claims to the setting the line that was written comes first. -/
theorem Rewritten.heeded_setting (h : Rewritten d l.text ls ls') (hl : d.Says l) :
    heeded d.setting (ofLines ls') = l :: (heeded d.setting (ofLines ls)).tail := by
  rw [heeded, heeded, h.filter_ofLines hl, if_pos rfl]
  split
  · rfl
  · cases (ofLines ls).filter (·.setting = d.setting) <;> rfl

variable {p q : Presentation}

/-! ### What is read afterwards

A text can be read if all claims that are heeded have values.  The claim that was written has one,
and every other claim that is heeded afterwards was heeded before. -/

/-- **A text that can be read** can be read when a directive was written into it. -/
theorem Rewritten.exists_read (h : Rewritten d l.text ls ls') (hl : d.Says l)
    (hp : Presentation.read ls = .ok p) : ∃ q, Presentation.read ls' = .ok q := by
  have hvalues := Presentation.exists_read_iff.1 ⟨p, hp⟩
  refine Presentation.exists_read_iff.2 ?_
  intro k m hm
  by_cases hk : k = d.setting
  · subst hk
    rw [h.heeded_setting hl] at hm
    rcases List.mem_cons.1 hm with rfl | hm
    · exact hl.value
    · exact hvalues _ m (List.mem_of_mem_tail hm)
  · rw [h.heeded_of_ne hl hk] at hm
    exact hvalues k m hm

/-- **Other settings** are read as before. -/
theorem Rewritten.get?_of_ne (h : Rewritten d l.text ls ls') (hl : d.Says l)
    (hp : Presentation.read ls = .ok p) (hq : Presentation.read ls' = .ok q)
    (hk : k ≠ d.setting) : q.get? k = p.get? k := by
  rw [Presentation.get?_of_read hq, Presentation.get?_of_read hp, h.heeded_of_ne hl hk]

/-- The setting itself has the value of the line that was written, unless the text made several
claims that count: the last of them stays and is read. -/
theorem Rewritten.get?_setting (h : Rewritten d l.text ls ls') (hl : d.Says l) {e : Directive}
    (he : l.value = .ok e) (hp : Presentation.read ls = .ok p)
    (hq : Presentation.read ls' = .ok q) : q.get? d.setting =
      if 1 < (heeded d.setting (ofLines ls)).length then p.get? d.setting else some e := by
  have hvalue : l.value.toOption = some e := by
    rw [he]
    rfl
  rw [Presentation.get?_of_read hq, Presentation.get?_of_read hp, h.heeded_setting hl]
  rcases heeded d.setting (ofLines ls) with _ | ⟨m, _ | ⟨m', ms⟩⟩
  · exact hvalue
  · exact hvalue
  · simp

/-! ### Directives that are read back

A setting has more than one claim that is heeded only if it is the position of a table, and then the
number of its claims is that of the lines which the directive supersedes. -/

/-- Several claims count just in case they are position lines of one table. -/
theorem one_lt_length_heeded_iff (hl : d.Says l) :
    1 < (heeded d.setting (ofLines ls)).length ↔
      d.slot = .position ∧ 1 < ls.countP d.supersedes := by
  by_cases hd : d.slot = .position
  · have hcount : (heeded d.setting (ofLines ls)).length = ls.countP d.supersedes := by
      rw [heeded, if_pos (by simpa using hd), ← List.countP_eq_length_filter, ofLines,
        List.countP_filterMap]
      refine List.countP_congr ?_
      intro line _
      rw [supersedes_iff hl]
      cases recognise? (trim line) <;> simp
    rw [hcount]
    exact ⟨fun h ↦ ⟨hd, h⟩, fun h ↦ h.2⟩
  · have hle : (heeded d.setting (ofLines ls)).length ≤ 1 := length_heeded_le (by simpa using hd)
    exact iff_of_false (Nat.not_lt.2 hle) fun h ↦ hd h.1

theorem read_text (hl : d.Says l) {e : Directive} (he : l.value = .ok e) :
    d.slot.read l.text = .ok (some e) := by
  have hslot : d.slot = l.slot := by
    rw [← d.slot_setting, ← hl.setting, l.slot_setting]
  rw [Slot.read, (isRemark_text hl.wellFormed).trimmed.trim_eq, hslot,
    slot_recognise?_text hl.wellFormed]
  show l.value.map some = _
  rw [he]
  rfl

/-- **A directive that is written is the one read back**, just in case it is not the position of a
table for which the text has several lines, or else the last of these says the same already. -/
theorem readBack_iff {text line : String} (hp : Presentation.read (lines text.toList) = .ok p)
    (hline : d.readableLine = .ok (some line)) :
    ∃ text' q e, d.set text = .ok text' ∧ Presentation.read (lines text'.toList) = .ok q ∧
      d.slot.read line.toList = .ok (some e) ∧
      (q.get? d.setting = some e ↔
        (d.slot = .position → 1 < (lines text.toList).countP d.supersedes →
          p.get? d.setting = some e)) := by
  obtain ⟨l, hl, htext⟩ := exists_says hline
  obtain ⟨e, he⟩ := hl.value
  obtain ⟨text', hset, hrewritten⟩ := exists_rewritten hline text
  rw [htext] at hrewritten
  obtain ⟨q, hq⟩ := hrewritten.exists_read hl hp
  refine ⟨text', q, e, hset, hq, htext ▸ read_text hl he, ?_⟩
  rw [hrewritten.get?_setting hl he hp hq]
  by_cases hmany : 1 < (heeded d.setting (ofLines (lines text.toList))).length
  · obtain ⟨hposition, hcount⟩ := (one_lt_length_heeded_iff hl).1 hmany
    rw [if_pos hmany]
    exact ⟨fun h _ _ ↦ h, fun h ↦ h hposition hcount⟩
  · rw [if_neg hmany]
    exact iff_of_true rfl fun hposition hcount ↦
      absurd ((one_lt_length_heeded_iff hl).2 ⟨hposition, hcount⟩) hmany

/-- A table that is moved to a point. -/
def moved : Directive := .position "a" ⟨.int 5, .int 5, none⟩

theorem readableLine_moved : moved.readableLine = .ok (some "# a (5, 5)") := by decide +kernel

theorem readBack_iff_moved : Presentation.read (lines "# a (0, 0)\n".toList) =
      .ok (.ofDirectives [.position "a" ⟨.int 0, .int 0, none⟩]) ∧
    moved.readableLine = .ok (some "# a (5, 5)") ∧
    ∃ text q e, moved.set "# a (0, 0)\n" = .ok text ∧
      Presentation.read (lines text.toList) = .ok q ∧
      moved.slot.read "# a (5, 5)".toList = .ok (some e) ∧ q.get? moved.setting = some e := by
  have hp : Presentation.read (lines "# a (0, 0)\n".toList) =
      .ok (.ofDirectives [.position "a" ⟨.int 0, .int 0, none⟩]) := by decide +kernel
  have hcount : ¬1 < (lines "# a (0, 0)\n".toList).countP moved.supersedes := by decide +kernel
  obtain ⟨text, q, e, hset, hq, hread, hback⟩ := readBack_iff hp readableLine_moved
  exact ⟨hp, readableLine_moved, text, q, e, hset, hq, hread, hback.2 fun _ h ↦ absurd h hcount⟩

/-- **An update may be lost**: the first of two position lines is overwritten, the second is
read. -/
theorem not_readBack_moved :
    Presentation.read (lines "# a (0, 0)\n# a (1, 1)\n".toList) =
      .ok (.ofDirectives
        [.position "a" ⟨.int 0, .int 0, none⟩, .position "a" ⟨.int 1, .int 1, none⟩]) ∧
    moved.readableLine = .ok (some "# a (5, 5)") ∧
    moved.set "# a (0, 0)\n# a (1, 1)\n" = .ok "# a (5, 5)\n# a (1, 1)\n" ∧
    moved.slot.read "# a (5, 5)".toList = .ok (some moved) ∧
    ∃ q, Presentation.read (lines "# a (5, 5)\n# a (1, 1)\n".toList) = .ok q ∧
      q.get? moved.setting ≠ some moved :=
  ⟨by decide +kernel, readableLine_moved, by decide +kernel, by decide +kernel, _, rfl,
    by decide +kernel⟩

end Directive

end ErDiagram
