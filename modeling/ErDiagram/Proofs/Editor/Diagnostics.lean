import Mathlib.Data.List.DropRight
import ErDiagram.Editor.Diagnostics
import ErDiagram.Proofs.Diagram.Declarations
import ErDiagram.Proofs.Diagram.RoundTrip

/-!
# What diagnostics report

The diagnostics of a text that can be read are about the diagram that it describes
(`diagnostics_of_ofText`).  First comes one for each field that refers to something that is not
declared, in the order of the fields (`Reports`); then one for each header that repeats the name in
one above it.  Nothing else is reported, and every diagnostic is at the line that it is about
(`Span.Covers`).
-/

set_option autoImplicit false

namespace ErDiagram.Editor

open Text

/-! ## Stretches of lines

A diagnostic covers its line without the blanks around it.  The stretch is described by what it cuts
out of the line, so the columns are right whatever the blanks are. -/

/-- A stretch covers a line of a text: it lies on that line, and between its ends stands what the
line holds besides the blanks around it. -/
structure Span.Covers (s : Span) (text : String) (l : Line) : Prop where
  /-- The stretch starts on the line. -/
  startLine : s.startLine = l.number
  /-- The stretch ends on the line. -/
  endLine : s.endLine = l.number
  /-- The line exists, and the ends of the stretch cut off just the blanks around it. -/
  exists_line : ∃ line, (lines text.toList)[l.number]? = some line ∧
    s.startColumn ≤ s.endColumn ∧ s.endColumn ≤ line.length ∧
    (line.take s.endColumn).drop s.startColumn = trim line

/-- Blanks are taken off the end, whatever stands before what is left. -/
theorem trimEnd_append {cs : List Char} (h : trimEnd cs ≠ []) (before : List Char) :
    trimEnd (before ++ cs) = before ++ trimEnd cs := by
  rw [trimEnd, List.reverse_append, List.dropWhile_append, if_neg, List.reverse_append,
    List.reverse_reverse]
  · rfl
  · intro hempty
    exact h (List.reverse_eq_nil_iff.2 (List.isEmpty_iff.1 hempty))

theorem isPrefix_trimEnd (cs : List Char) : trimEnd cs <+: cs :=
  List.rdropWhile_prefix isBlank cs

theorem trimEnd_eq_nil_iff {cs : List Char} : trimEnd cs = [] ↔ ∀ c ∈ cs, isBlank c = true :=
  List.rdropWhile_eq_nil_iff

/-- What a line holds besides the blanks around it stands between the places where these end. -/
theorem drop_take_eq_trim (line : List Char) :
    (line.take (max (trimEnd line).length (line.length - (trimStart line).length))).drop
      (line.length - (trimStart line).length) = trim line := by
  obtain ⟨before, hline⟩ : trimStart line <:+ line := List.dropWhile_suffix isBlank
  have hlength := congrArg List.length hline
  rw [List.length_append] at hlength
  have hstart : line.length - (trimStart line).length = before.length := by omega
  rw [hstart]
  cases hrest : trimStart line with
  | nil =>
    -- on a blank line the two ends cross, and nothing is left between them
    have hshort : (line.take (max (trimEnd line).length before.length)).length ≤ before.length := by
      rw [hrest] at hlength
      rw [List.length_take, ← hlength]
      exact Nat.min_le_right _ _
    rw [List.drop_eq_nil_of_le hshort, trim, hrest]
    rfl
  | cons c cs =>
    have hblank : isBlank c = false := isBlank_of_mem_head?_dropWhile (l := line) (by
      rw [← trimStart, hrest]
      rfl)
    have hne : trimEnd (trimStart line) ≠ [] := by
      intro hnil
      rw [trimEnd_eq_nil_iff.1 hnil c (hrest ▸ List.mem_cons_self)] at hblank
      cases hblank
    have hend : trimEnd line = before ++ trim line := by
      rw [trim, ← trimEnd_append hne before, hline]
    have htake : line.take (trimEnd line).length = trimEnd line :=
      List.prefix_iff_eq_take.1 (isPrefix_trimEnd line) |>.symm
    have hmax : max (trimEnd line).length before.length = (trimEnd line).length := by
      rw [hend, List.length_append]
      omega
    rw [hmax, htake, hend, List.drop_left]

/-- The stretch of a line of a text covers it. -/
theorem Span.covers_ofLine {text : String} {l : Line} (h : l ∈ Line.classify text) :
    (Span.ofLine (lines text.toList) l.number).Covers text l := by
  obtain ⟨line, hline, -⟩ := Line.exists_of_mem_classify h
  have hget : (lines text.toList)[l.number]?.getD [] = line := by rw [hline, Option.getD_some]
  refine ⟨rfl, rfl, line, hline, ?_⟩
  rw [ofLine, hget]
  refine ⟨Nat.le_max_right _ _, ?_, drop_take_eq_trim line⟩
  exact Nat.max_le.2 ⟨(isPrefix_trimEnd line).length_le, Nat.sub_le _ _⟩

/-! ## Fields that refer to nothing

`Flaw` describes what is wrong with a field by the diagram alone.  `Reports` runs along the
declarations and the diagnostics together, and says that each flaw has its diagnostic, in its turn.
-/

/-- What a field of a table refers to is not declared.  This is an error if the table is unknown;
otherwise the first table of that name lacks the field. -/
inductive Flaw (d : Diagram) : String × Field → (isError : Bool) → Problem → Prop
  | unknownTable {table : String} {f : Field} {r : Reference} (hr : f.reference = some r)
    (h : r.table ∉ d.names) : Flaw d (table, f) true (.unknownTable table f.name r.table)
  | unknownField {table : String} {f : Field} {r : Reference} {t : Table}
    (hr : f.reference = some r) (ht : d.table? r.table = some t)
    (h : ∀ g ∈ t.fields, g.name ≠ r.field) :
    Flaw d (table, f) false (.unknownField table f.name r.table r.field)

/-- For each declaration with a flaw, in their order, there is one diagnostic on its line, and there
are no others. -/
inductive Reports (text : String) (d : Diagram) : List Declaration → List Diagnostic → Prop
  | nil : Reports text d [] []
  | flaw {c : Declaration} {cs : List Declaration} {x : Diagnostic} {xs : List Diagnostic}
    (h : Flaw d c.entry x.problem.isError x.problem) (hspan : x.span.Covers text c.line)
    (hrest : Reports text d cs xs) : Reports text d (c :: cs) (x :: xs)
  | sound {c : Declaration} {cs : List Declaration} {xs : List Diagnostic}
    (h : ∀ e p, ¬Flaw d c.entry e p) (hrest : Reports text d cs xs) : Reports text d (c :: cs) xs

/-- The problem that is found is the flaw that there is. -/
theorem flaw_of_referenceProblem? {d : Diagram} {c : Declaration} {p : Problem}
    (h : referenceProblem? d.tables c = some p) : Flaw d c.entry p.isError p := by
  obtain ⟨r, hr, h⟩ := Option.bind_eq_some_iff.1 h
  split at h
  · next hfind =>
    obtain rfl := Option.some.inj h
    exact .unknownTable hr (Table.find?_eq_none_iff.1 hfind)
  · next t ht =>
    split at h
    · cases h
    · next hfield =>
      obtain rfl := Option.some.inj h
      rw [Option.not_isSome_iff_eq_none] at hfield
      exact .unknownField hr ht (Table.field?_eq_none_iff.1 hfield)

theorem not_flaw_of_referenceProblem? {d : Diagram} {c : Declaration}
    (h : referenceProblem? d.tables c = none) (e : Bool) (p : Problem) : ¬Flaw d c.entry e p := by
  rw [Declaration.entry]
  rintro (⟨hr, htable⟩ | ⟨hr, ht, hfields⟩)
  · have hfind := Table.find?_eq_none_iff.2 htable
    simp [referenceProblem?, hr, hfind] at h
  · have hfind : Table.find? d.tables _ = some _ := ht
    simp [referenceProblem?, hr, hfind, Table.field?_eq_none_iff.2 hfields] at h

/-- The flaws among declarations are reported. -/
theorem reports_filterMap {text : String} {d : Diagram} {cs : List Declaration}
    (h : ∀ c ∈ cs, c.line ∈ Line.classify text) :
    Reports text d cs (cs.filterMap fun c ↦ (referenceProblem? d.tables c).map
      (⟨·, Span.ofLine (lines text.toList) c.line.number⟩)) := by
  induction cs with
  | nil => exact .nil
  | cons c cs ih =>
    obtain ⟨hc, hcs⟩ := List.forall_mem_cons.1 h
    cases hproblem : referenceProblem? d.tables c with
    | none =>
      rw [List.filterMap_cons_none (by rw [hproblem, Option.map_none])]
      exact .sound (not_flaw_of_referenceProblem? hproblem) (ih hcs)
    | some p =>
      rw [List.filterMap_cons_some (by rw [hproblem, Option.map_some])]
      exact .flaw (flaw_of_referenceProblem? hproblem) (Span.covers_ofLine hc) (ih hcs)

/-! ## Headers that repeat a name

Which headers repeat a name can be said of the lines: those with a header of the same text above
them.  The program finds them by noting names as it goes, from a list of names that more than one
table has; no repeating header is missing from that list, so the two agree. -/

/-- That a header repeats the name in one above it is reported, as no error. -/
structure ReportsRepeat (text : String) (l : Line) (x : Diagnostic) : Prop where
  /-- The problem is that the table of this name is declared again. -/
  problem : x.problem = .declaredAgain (String.ofList l.text)
  /-- It is a warning. -/
  isError : x.problem.isError = false
  /-- It is reported for the line. -/
  span : x.span.Covers text l

/-! ### Picking out headers

The program goes down the lines and keeps the names that it has met.  The names met so far and the
headers further up are the two ways in which a header can be a repetition, and the induction keeps
both. -/

theorem repeats_cons_iff {l m : Line} {ls : List Line} (hlt : l.number < m.number) :
    Line.Repeats (l :: ls) m ↔
      Line.Repeats ls m ∨ m.kind = .header ∧ l.kind = .header ∧ l.text = m.text := by
  simp only [Line.Repeats, List.exists_mem_cons_iff, hlt, true_and, and_or_left]
  exact or_comm

theorem repeatedHeaders_cons (names seen : List String) (l : Line) (ls : List Line) :
    repeatedHeaders names seen (l :: ls) =
      (if l.kind = .header ∧ String.ofList l.text ∈ names ∧ String.ofList l.text ∈ seen then [l]
        else []) ++
      repeatedHeaders names (if l.kind = .header ∧ String.ofList l.text ∈ names then
        String.ofList l.text :: seen else seen) ls := by
  rw [repeatedHeaders]
  by_cases h : l.kind = .header ∧ String.ofList l.text ∈ names
  · simp [h]
  · rw [if_neg h, if_neg h, if_neg fun hseen ↦ h ⟨hseen.1, hseen.2.1⟩]
    rfl

/-- The headers that are picked out are those that repeat a name which was met before or stands in a
header above. -/
theorem repeatedHeaders_eq_filter (names seen : List String) {ls : List Line}
    (h : ls.Pairwise (·.number < ·.number)) : repeatedHeaders names seen ls =
      ls.filter fun l ↦ l.kind = .header ∧ String.ofList l.text ∈ names ∧
        (String.ofList l.text ∈ seen ∨ Line.Repeats ls l) := by
  induction ls generalizing seen with
  | nil => rfl
  | cons l ls ih =>
    obtain ⟨hl, hls⟩ := List.pairwise_cons.1 h
    have hfirst : ¬Line.Repeats (l :: ls) l := by
      rintro ⟨-, k, hk, -, hlt, -⟩
      rcases List.mem_cons.1 hk with rfl | hk
      · exact Nat.lt_irrefl _ hlt
      · exact Nat.lt_asymm hlt (hl k hk)
    -- the first line is one of the headers above the others, if it is a header of such a name
    have hrest : ∀ m ∈ ls, (m.kind = .header ∧ String.ofList m.text ∈ names ∧
        (String.ofList m.text ∈ (if l.kind = .header ∧ String.ofList l.text ∈ names then
          String.ofList l.text :: seen else seen) ∨ Line.Repeats ls m)) ↔
        m.kind = .header ∧ String.ofList m.text ∈ names ∧
          (String.ofList m.text ∈ seen ∨ Line.Repeats (l :: ls) m) := by
      intro m hm
      have hname : String.ofList m.text = String.ofList l.text ↔ l.text = m.text := by
        rw [String.ofList_inj, eq_comm]
      rw [repeats_cons_iff (hl m hm)]
      split
      · rw [List.mem_cons, hname]
        tauto
      · have : l.text = m.text → (String.ofList m.text ∈ names ↔ String.ofList l.text ∈ names) :=
          fun heq ↦ by rw [heq]
        tauto
    rw [repeatedHeaders_cons, ih _ hls,
      List.filter_congr fun m hm ↦ decide_eq_decide.2 (hrest m hm), List.filter_cons]
    simp only [hfirst, or_false, decide_eq_true_eq]
    split <;> rfl

/-- The names that more than one table has leave no header out that repeats one. -/
theorem repeatedHeaders_classify (text : String) :
    repeatedHeaders (Table.duplicateNames (Table.ofLines (Line.classify text))) []
      (Line.classify text) =
        (Line.classify text).filter fun l ↦ Line.Repeats (Line.classify text) l := by
  have hnumbers := Line.pairwise_number_classify text
  rw [repeatedHeaders_eq_filter _ _ hnumbers]
  refine List.filter_congr fun l hl ↦ decide_eq_decide.2 ?_
  constructor
  · rintro ⟨-, -, hseen | hrepeats⟩
    · cases hseen
    · exact hrepeats
  · intro hrepeats
    exact ⟨hrepeats.1, Line.mem_duplicateNames_of_repeats hnumbers hl hrepeats, .inr hrepeats⟩

/-! ## All diagnostics

The two kinds of diagnostics stand one behind the other, and the declarations are tied to the fields
of the diagram, so that nothing is said about a field that the diagram does not have. -/

/-- **What is reported of a text that can be read**: the declarations in its lines are the fields of
its diagram, each flaw among them is reported at its line, and behind these each header that repeats
a name; nothing else is. -/
theorem diagnostics_of_ofText {text : String} {d : Diagram} (h : Diagram.ofText text = .ok d) :
    (Declaration.ofLines (Line.classify text)).map Declaration.entry = d.entries ∧
      ∃ xs ys, diagnostics text = .ok (xs ++ ys) ∧
        Reports text d (Declaration.ofLines (Line.classify text)) xs ∧
        List.Forall₂ (ReportsRepeat text)
          ((Line.classify text).filter fun l ↦ Line.Repeats (Line.classify text) l) ys := by
  obtain ⟨htables, -⟩ := Diagram.ofText_eq_ok_iff.1 h
  have hentries : (Declaration.ofLines (Line.classify text)).map Declaration.entry = d.entries := by
    rw [Diagram.entries, ← htables, Table.entries_ofLines]
  have hrepeats : List.Forall₂ (ReportsRepeat text)
      ((Line.classify text).filter fun l ↦ Line.Repeats (Line.classify text) l)
      (((Line.classify text).filter fun l ↦ Line.Repeats (Line.classify text) l).map fun l ↦
        ⟨.declaredAgain (String.ofList l.text), Span.ofLine (lines text.toList) l.number⟩) := by
    rw [List.forall₂_map_right_iff, List.forall₂_same]
    intro l hl
    exact ⟨rfl, rfl, Span.covers_ofLine (List.mem_filter.1 hl).1⟩
  refine ⟨hentries, _, _, ?_, reports_filterMap fun c ↦ Declaration.line_mem_of_mem_below, hrepeats⟩
  rw [diagnostics, h, ← repeatedHeaders_classify, htables]
  rfl

/-- A text that refers to a table and to a field that are not declared, and declares a table
twice. -/
def flawedText : String := " a\n-\n\tb_id fk \n# b\nc fk >- a.x\na\n-\n"

/-- What that text describes. -/
def flawed : Diagram :=
  { tables := [⟨"a", [⟨"b_id", none, { fk := true }, some ⟨"b", "id", ">-"⟩, none⟩,
      ⟨"c", none, { fk := true }, some ⟨"a", "x", ">-"⟩, none⟩]⟩, ⟨"a", []⟩]
    presentation := .ofDirectives [] }

theorem diagnostics_of_ofText_flawed : Diagram.ofText flawedText = .ok flawed ∧
    (Declaration.ofLines (Line.classify flawedText)).map Declaration.entry = flawed.entries ∧
      ∃ xs ys, diagnostics flawedText = .ok (xs ++ ys) ∧
        Reports flawedText flawed (Declaration.ofLines (Line.classify flawedText)) xs ∧
        List.Forall₂ (ReportsRepeat flawedText) ((Line.classify flawedText).filter fun l ↦
          Line.Repeats (Line.classify flawedText) l) ys :=
  have h : Diagram.ofText flawedText = .ok flawed :=
    Diagram.ofText_of_read (by decide +kernel) (by decide +kernel)
  ⟨h, diagnostics_of_ofText h⟩

example : diagnostics flawedText = .ok
    [⟨.unknownTable "a" "b_id" "b", ⟨2, 1, 2, 8⟩⟩, ⟨.unknownField "a" "c" "a" "x", ⟨4, 0, 4, 11⟩⟩,
      ⟨.declaredAgain "a", ⟨5, 0, 5, 1⟩⟩] := by
  decide +kernel

end ErDiagram.Editor
