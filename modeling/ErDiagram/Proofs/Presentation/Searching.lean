import ErDiagram.Proofs.Presentation.Merging

/-!
# Reading and searching

`Presentation.read` reads all directives in one pass.  `Slot.search` looks for the first directive
of one slot and `Slot.searchAll` for all of them, each in a pass of its own.  Of a text that can be
read, all of them find the same (`Presentation.search_of_read`).

No line is of two slots, and therefore it makes no difference for which slots a pass looks at a
line.  A pass may look at every line for the slots that are still open, and only at lines that start
with a number sign and a space (`Directive.collectOpen`).

Both ways of reading are brought to the list of the directive lines of a text.  A search for one
slot evaluates the lines of this slot, the first of them or all; the pass evaluates the lines that
are heeded; and of one slot these are the first line, or all lines if it is the slot of positions.
-/

set_option autoImplicit false

namespace ErDiagram

open Text

/-! ## Searching for one slot

What a slot recognises is a directive line, and only of that slot, so that searching the text for a
slot is the same as picking its lines from the directive lines of the text. -/

namespace Slot

open DirectiveLine

variable {s t : Slot} {cs : List Char} {l m : DirectiveLine}

/-- **No line is of two slots.** -/
theorem eq_of_recognise? (hs : s.recognise? cs = some l) (ht : t.recognise? cs = some m) :
    s = t := by
  obtain ⟨hl, rfl⟩ := slot_recognise?_eq_some_iff.1 hs
  obtain ⟨hm, rfl⟩ := slot_recognise?_eq_some_iff.1 ht
  rw [Option.some.inj (hl.symm.trans hm)]

/-- The lines of one slot. -/
theorem filterMap_recognise? (s : Slot) (lines : List (List Char)) :
    lines.filterMap (fun line ↦ s.recognise? (trim line)) =
      (ofLines lines).filter (·.slot = s) := by
  rw [ofLines, List.filter_filterMap]
  refine List.filterMap_congr fun line _ ↦ Option.ext fun l ↦ ?_
  rw [slot_recognise?_eq_some_iff, Option.filter_eq_some_iff, decide_eq_true_eq]

section Cons

variable {line : List Char} (lines : List (List Char))

theorem filter_ofLines_cons_of_none (h : s.recognise? (trim line) = none) :
    (ofLines (line :: lines)).filter (·.slot = s) = (ofLines lines).filter (·.slot = s) := by
  rw [← filterMap_recognise?, ← filterMap_recognise?]
  exact List.filterMap_cons_none h

theorem filter_ofLines_cons_of_some (h : s.recognise? (trim line) = some l) :
    (ofLines (line :: lines)).filter (·.slot = s) = l :: (ofLines lines).filter (·.slot = s) := by
  rw [← filterMap_recognise?, ← filterMap_recognise?]
  exact List.filterMap_cons_some h

end Cons

theorem read_of_none {line : List Char} (h : s.recognise? (trim line) = none) :
    s.read line = .ok none := by
  rw [read, h]

theorem read_of_some {line : List Char} (h : s.recognise? (trim line) = some l) :
    s.read line = l.value.map some := by
  rw [read, h]

/-- The search for the first directive of a slot evaluates the first line of that slot. -/
theorem search_eq (s : Slot) (lines : List (List Char)) : s.search lines =
    ((ofLines lines).filter (·.slot = s)).head?.elim (.ok none) (·.value.map some) := by
  induction lines with
  | nil => rfl
  | cons line lines ih =>
    rw [search]
    cases hl : s.recognise? (trim line) with
    | none =>
      rw [read_of_none hl, filter_ofLines_cons_of_none lines hl, ← ih]
      rfl
    | some l =>
      rw [read_of_some hl, filter_ofLines_cons_of_some lines hl, List.head?_cons, Option.elim_some]
      cases l.value <;> rfl

/-- The search for all directives of a slot evaluates all lines of that slot. -/
theorem searchAll_eq_mapM (s : Slot) (lines : List (List Char)) :
    s.searchAll lines = ((ofLines lines).filter (·.slot = s)).mapM value := by
  induction lines with
  | nil => rfl
  | cons line lines ih =>
    rw [searchAll, List.mapM_cons]
    cases hl : s.recognise? (trim line) with
    | none =>
      rw [read_of_none hl, filter_ofLines_cons_of_none lines hl, ← ih, searchAll]
      cases lines.mapM s.read <;> rfl
    | some l =>
      rw [read_of_some hl, filter_ofLines_cons_of_some lines hl, List.mapM_cons, ← ih, searchAll]
      cases l.value with
      | error e => rfl
      | ok d => cases lines.mapM s.read <;> rfl

/-! ### Looking at a line for some slots

A line that says something for one slot says nothing for any other.  If it is tried for several
slots, in whatever order, the result depends on whether its own slot is among them. -/

theorem recognise?_eq_ite (h : DirectiveLine.recognise? cs = some l) (s : Slot) :
    s.recognise? cs = if l.slot = s then some l else none := by
  refine Option.ext fun m ↦ ?_
  rw [slot_recognise?_eq_some_iff, h]
  split
  · next hs =>
    refine ⟨fun hm ↦ hm.1, fun hm ↦ ⟨hm, ?_⟩⟩
    rw [← Option.some.inj hm, hs]
  · next hs =>
    refine iff_of_false (fun ⟨hm, hslot⟩ ↦ hs ?_) (Option.some_ne_none m).symm
    rw [Option.some.inj hm, hslot]

/-- What a line says is found just in case it is looked for. -/
theorem findSome?_recognise? (h : DirectiveLine.recognise? cs = some l) (slots : List Slot) :
    slots.findSome? (·.recognise? cs) = if l.slot ∈ slots then some l else none := by
  induction slots with
  | nil => rfl
  | cons s slots ih =>
    rw [List.findSome?_cons, recognise?_eq_ite h]
    by_cases hs : l.slot = s
    · simp [hs]
    · rw [if_neg hs, ih]
      simp [hs]

end Slot

/-! ## A pass that looks at open slots

A pass can save the trouble of looking for slots that are set already, and of looking at lines that
do not start like a directive.  Neither makes a difference: what it does not look for would not
count, and what it does not look at is no directive line. -/

namespace Directive

variable {found : List Directive} {line : List Char}

/-- The slots for which one more line counts, in the order in which they are looked for: those that
hold one value and are not set, and positions. -/
def openSlots (found : List Directive) : List Slot := Slot.all.filter (counts found)

/-- The directives found so far, and that of one more line.  The line is looked at only if it starts
with a number sign and a space, and only for slots that are open. -/
def collectOpen (found : List Directive) (line : List Char) : Except Error (List Directive) :=
  match literal? "# " (trim line) with
  | none => .ok found
  | some _ =>
    match (openSlots found).findSome? (·.recognise? (trim line)) with
    | none => .ok found
    | some l => l.value.map (found ++ [·])

end Directive

/-- Every directive line starts with a number sign and a space. -/
theorem DirectiveLine.exists_literal?_text (l : DirectiveLine) :
    ∃ rest, literal? "# " l.text = some rest := by
  have hopening : ∀ s ∈ Slot.scalars, (literal? "# " s.opening).isSome = true := by
    decide +kernel
  by_cases hslot : l.slot = .position
  · cases l with
    | position table x y tint =>
      refine ⟨table ++ (" (".toList ++ placeText x y tint), literal?_eq_some_iff.2 ?_⟩
      rw [text_position, List.append_assoc, List.append_assoc]
    | view | zoom | color => cases hslot
  · obtain ⟨rest, hrest⟩ := exists_text_eq hslot
    obtain ⟨rest', hrest'⟩ := Option.isSome_iff_exists.1 (hopening _ (Slot.mem_scalars hslot))
    refine ⟨rest' ++ rest, literal?_eq_some_iff.2 ?_⟩
    rw [hrest, literal?_eq_some_iff.1 hrest', List.append_assoc]

namespace Directive

/-- **It makes no difference for which slots a line is looked at**, as long as those that are open
are among them. -/
theorem collectOpen_eq (found : List Directive) (line : List Char) :
    collectOpen found line = collectLine found line := by
  rw [collectOpen]
  cases hl : DirectiveLine.recognise? (trim line) with
  | none =>
    have hopen : (openSlots found).findSome? (·.recognise? (trim line)) = none := by
      refine List.findSome?_eq_none_iff.2 fun s hs ↦ ?_
      exact List.findSome?_eq_none_iff.1 hl s (List.mem_of_mem_filter hs)
    rw [collectLine_of_none hl, hopen]
    split <;> rfl
  | some l =>
    obtain ⟨-, htext⟩ := DirectiveLine.of_recognise? hl
    obtain ⟨rest, hrest⟩ := l.exists_literal?_text
    have hmem : l.slot ∈ openSlots found ↔ counts found l.slot = true := by
      rw [openSlots, List.mem_filter, and_iff_right_iff_imp]
      exact fun _ ↦ Slot.mem_all _
    rw [htext, hrest, ← htext]
    show (match (openSlots found).findSome? (·.recognise? (trim line)) with
      | none => Except.ok found
      | some l => l.value.map (found ++ [·])) = _
    -- only the rule of its own slot reads the line, so it matters whether that slot is open
    rw [Slot.findSome?_recognise? hl]
    by_cases hcounts : counts found l.slot = true
    · rw [if_pos (hmem.2 hcounts), collectLine_of_counts hl hcounts]
    · rw [if_neg (hmem.not.2 hcounts), collectLine_of_not_counts hl hcounts]

/-- A pass that looks at open slots only collects the same directives. -/
theorem foldlM_collectOpen (lines : List (List Char)) :
    lines.foldlM collectOpen [] = collect lines := by
  rw [collect, funext₂ collectOpen_eq]

end Directive

/-! ## What is read and what is found

For a slot that holds one value, both give the value of its first line.  The positions of a
presentation are put one over the other in the order of their lines, so for each table the last one
stays. -/

namespace Positions

variable (es : List (String × TablePosition))

/-- The names of a map stand in the order in which they first came up. -/
theorem names_ofList : (ofList es).names = (es.map Prod.fst).eraseDups := by
  induction es using List.reverseRecOn with
  | nil => rfl
  | append_singleton es e ih =>
    have hmem : e.1 ∈ (ofList es).names ↔ e.1 ∈ es.map Prod.fst := by
      rw [ih, List.mem_eraseDups]
    rw [ofList_concat, names_put, List.map_append, List.map_singleton, eraseDups_concat, ih]
    simp only [← hmem, ih]

/-- The last position that is put for a name counts. -/
theorem get?_ofList (t : String) :
    (ofList es).get? t = ((es.filter (·.1 = t)).getLast?).map Prod.snd := by
  induction es using List.reverseRecOn with
  | nil => rfl
  | append_singleton es e ih =>
    rw [ofList_concat, get?_put, ih, List.filter_append]
    by_cases ht : e.1 = t
    · rw [if_pos ht, List.filter_cons_of_pos (by simpa using ht), List.filter_nil,
        List.getLast?_concat, Option.map_some]
    · rw [if_neg ht, List.filter_cons_of_neg (by simpa using ht), List.filter_nil, List.append_nil]

end Positions

namespace Presentation

open DirectiveLine Directive

variable {ls : List (List Char)} {p : Presentation} {k : Setting}

/-- Every position line is heeded. -/
theorem filter_allHeeded_position (ls : List DirectiveLine) :
    (allHeeded ls).filter (·.slot = .position) = ls.filter (·.slot = .position) := by
  induction ls with
  | nil => rfl
  | cons l ls ih =>
    have hbelow (ms : List DirectiveLine) : (ms.filter (heededBelow l.slot)).filter
        (·.slot = .position) = ms.filter (·.slot = .position) := by
      rw [List.filter_filter]
      refine List.filter_congr fun m _ ↦ ?_
      by_cases hm : m.slot = .position <;> simp [heededBelow, hm]
    rw [allHeeded, List.filter_cons, List.filter_cons, hbelow, ih]

/-! ### The pass and the searches

The values are compared setting by setting for the slots that hold one value, and as a whole for the
positions, where the order of the names has to agree as well. -/

/-- Of a slot that holds one value, the first line is read. -/
theorem search_of_read (h : read ls = .ok p) (hk : k.slot ≠ .position) :
    k.slot.search ls = .ok (p.get? k) := by
  have hlines : (ofLines ls).filter (·.setting = k) = (ofLines ls).filter (·.slot = k.slot) := by
    refine List.filter_congr fun l _ ↦ ?_
    rw [decide_eq_decide]
    refine ⟨?_, fun hl ↦ Setting.eq_of_slot_eq (l.slot_setting.trans hl) hk⟩
    rintro rfl
    exact l.slot_setting.symm
  -- of a scalar only the first line is heeded, and that is where the search stops
  have hheeded : heeded k (ofLines ls) = ((ofLines ls).filter (·.slot = k.slot)).take 1 := by
    rw [heeded, if_neg hk, hlines]
  have hvalues := exists_read_iff.1 ⟨p, h⟩ k
  rw [Slot.search_eq, get?_of_read h]
  rw [hheeded] at hvalues ⊢
  generalize (ofLines ls).filter (·.slot = k.slot) = claims at hvalues ⊢
  cases claims with
  | nil => rfl
  | cons l rest =>
    obtain ⟨d, hd⟩ := hvalues l List.mem_cons_self
    show l.value.map some = .ok (l.value.toOption)
    rw [hd]
    rfl

theorem filter_slot_position (ds : List Directive) : ds.filter (·.slot = .position) =
    (ds.filterMap (·.positionValue?)).map fun e ↦ .position e.1 e.2 := by
  induction ds with
  | nil => rfl
  | cons d ds ih =>
    cases d with
    | view | zoom | color =>
      rw [List.filter_cons_of_neg (by simp [Directive.slot]), List.filterMap_cons_none rfl, ih]
    | position table place =>
      rw [List.filter_cons_of_pos (by simp [Directive.slot]), ih]
      rfl

/-- All position lines are read, one put over the other. -/
theorem searchAll_of_read (h : read ls = .ok p) :
    ∃ es, Slot.position.searchAll ls = .ok (es.map fun e ↦ .position e.1 e.2) ∧
      p.positions = .ofList es := by
  obtain ⟨ds, hds, rfl⟩ := map_eq_ok_iff.1 h
  rw [collect_eq_mapM, mapM_eq_ok_iff] at hds
  have hslot : ∀ ⦃l : DirectiveLine⦄ ⦃d : Directive⦄, l.value = .ok d →
      (decide (l.slot = .position) = true ↔ decide (d.slot = .position) = true) := by
    intro l d hd
    rw [slot_of_value hd]
  have hpositions := List.rel_filter hslot hds
  rw [filter_allHeeded_position, filter_slot_position] at hpositions
  exact ⟨_, Slot.searchAll_eq_mapM .position ls ▸ mapM_eq_ok_iff.2 hpositions, rfl⟩

/-- **Reading agrees with searching.**  Of a text that can be read, each slot that holds one value
has the first directive that a search for this slot finds; the positions are those that a search for
all positions finds, in the order in which the tables first come up, each the last of its table; and
a pass that looks at every line for open slots only reads the same.  No line is of two slots. -/
theorem read_agrees {text : String} (h : read (lines text.toList) = .ok p) :
    (∀ k : Setting, k.slot ≠ .position →
      k.slot.search (lines text.toList) = .ok (p.get? k)) ∧
    (∃ es, Slot.position.searchAll (lines text.toList) = .ok (es.map fun e ↦ .position e.1 e.2) ∧
      p.positions = .ofList es ∧ p.positions.names = (es.map Prod.fst).eraseDups ∧
      ∀ t, p.positions.get? t = ((es.filter (·.1 = t)).getLast?).map Prod.snd) ∧
    ((lines text.toList).foldlM collectOpen []).map ofDirectives = .ok p ∧
    ∀ (cs : List Char) (s t : Slot), (s.recognise? cs).isSome = true →
      (t.recognise? cs).isSome = true → s = t := by
  obtain ⟨es, hes, hpositions⟩ := searchAll_of_read h
  refine ⟨fun k hk ↦ search_of_read h hk, ⟨es, hes, hpositions, ?_, fun t ↦ ?_⟩, ?_, ?_⟩
  · rw [hpositions, Positions.names_ofList]
  · rw [hpositions, Positions.get?_ofList]
  · rw [foldlM_collectOpen]
    exact h
  · intro cs s t hs ht
    obtain ⟨l, hl⟩ := Option.isSome_iff_exists.1 hs
    obtain ⟨m, hm⟩ := Option.isSome_iff_exists.1 ht
    exact Slot.eq_of_recognise? hl hm

/-- A text that sets a color twice and moves a table. -/
def repeating : String :=
  "# text-bg: #fff\n# a (0, 0)\n  # text-bg: #000\n# b (1, 1)\n# a (5, 5)\n"

theorem read_agrees_repeating :
    read (lines repeating.toList) = .ok (.ofDirectives [.color .textBackground "#fff",
      .position "a" ⟨.int 0, .int 0, none⟩, .position "b" ⟨.int 1, .int 1, none⟩,
      .position "a" ⟨.int 5, .int 5, none⟩]) ∧
    (Slot.color .textBackground).search (lines repeating.toList) =
      .ok (some (.color .textBackground "#fff")) ∧
    Slot.zoom.search (lines repeating.toList) = .ok none ∧
    ∃ es, Slot.position.searchAll (lines repeating.toList) =
        .ok (es.map fun e ↦ .position e.1 e.2) ∧
      (Positions.ofList es).entries =
        [("a", ⟨.int 5, .int 5, none⟩), ("b", ⟨.int 1, .int 1, none⟩)] := by
  have hread : read (lines repeating.toList) = .ok (.ofDirectives [.color .textBackground "#fff",
      .position "a" ⟨.int 0, .int 0, none⟩, .position "b" ⟨.int 1, .int 1, none⟩,
      .position "a" ⟨.int 5, .int 5, none⟩]) := by decide +kernel
  obtain ⟨hscalars, ⟨es, hes, hpositions, -⟩, -⟩ := read_agrees hread
  refine ⟨hread, hscalars (.color .textBackground) (by decide), hscalars .zoom (by decide), es, hes,
    ?_⟩
  rw [← hpositions]
  decide +kernel

end Presentation

end ErDiagram
