import ErDiagram.Proofs.Diagram.Remarks
import ErDiagram.Proofs.Directive.Editing

/-!
# Directives written into the text of a diagram

A directive that is written into a text changes one setting of the diagram at most.  For the other
settings `Directive.Rewritten.get?_of_ne` says so.  For the tables it is because no table looks at
lines that start with a number sign, neither when they stand in for each other nor when they are put
behind a text (`Directive.Rewritten.tables_run`).

What one edit leaves alone (`Diagram.sameBut_of_set`) any number of edits one after the other do
(`Diagram.sameBut_of_setAll`).
-/

set_option autoImplicit false

namespace ErDiagram

open Text

/-! ## One edit

Writing a directive replaces one line or puts one behind the others, but for empty lines at the end.
The line that goes and the line that comes both start with a number sign.  For the tables two such
lines are alike, and a line behind all others that declares nothing adds no table; for the settings
the lines of a text have been dealt with before, so the two halves of `SameBut` are just put
together here. -/

namespace Directive

variable {d : Directive} {l : DirectiveLine} {ls ls' : List (List Char)}

/-- A line that is superseded starts with a number sign. -/
theorem head?_trim_of_supersedes (hl : d.Says l) {line : List Char}
    (h : d.supersedes line = true) : (trim line).head? = some '#' := by
  obtain ⟨m, hm, -⟩ := (supersedes_iff hl).1 h
  obtain ⟨hwf, htext⟩ := DirectiveLine.of_recognise? hm
  rw [htext]
  exact (DirectiveLine.isRemark_text hwf).head

/-- **The tables** that lines declare are the same when a directive was written into them. -/
theorem Rewritten.tables_run (h : Rewritten d l.text ls ls') (hl : d.Says l) (r : TableReader) :
    (r.run (ls'.map trim)).tables = (r.run (ls.map trim)).tables := by
  have hremark := DirectiveLine.isRemark_text hl.wellFormed
  have htext : trim l.text = l.text := hremark.trimmed.trim_eq
  cases h with
  | @replaced before after ls' old n hbefore hold hls =>
    have hnew : ls'.map trim ++ List.replicate n [] =
        before.map trim ++ l.text :: after.map trim := by
      have htrimmed := congrArg (List.map trim) hls
      simpa [htext] using htrimmed
    -- the lines lost at the end are empty, and an empty line does no more than close a table
    have hlost : (r.run (ls'.map trim ++ List.replicate n [])).tables =
        (r.run (ls'.map trim)).tables :=
      TableReader.tables_run_append fun m hm ↦ .inl (List.eq_of_mem_replicate hm)
    rw [← hlost, hnew, List.map_append, List.map_cons]
    exact congrArg _ (TableReader.run_append_cons hremark.head (head?_trim_of_supersedes hl hold))
  | appended n hls =>
    have hnew : (ls ++ List.replicate n [] ++ [l.text]).map trim =
        ls.map trim ++ (List.replicate n [] ++ [l.text]) := by
      simp [htext]
    rw [hnew]
    refine TableReader.tables_run_append ?_
    intro m hm
    rcases List.mem_append.1 hm with hm | hm
    · exact .inl (List.eq_of_mem_replicate hm)
    · rw [List.mem_singleton.1 hm]
      exact .inr hremark.head

end Directive

namespace Diagram

/-- Two diagrams have the same tables, and the same presentation but for one setting. -/
structure SameBut (k : Setting) (d e : Diagram) : Prop where
  /-- The tables are the same. -/
  tables : e.tables = d.tables
  /-- The other settings are the same. -/
  settings : ∀ j ≠ k, e.presentation.get? j = d.presentation.get? j

theorem SameBut.refl (k : Setting) (d : Diagram) : SameBut k d d := ⟨rfl, fun _ _ ↦ rfl⟩

variable {text text' : String} {d : Directive} {D : Diagram}

/-- A directive that no line can say leaves the text alone. -/
theorem eq_of_readableLine_none (h : d.readableLine = .ok none) (hset : d.set text = .ok text') :
    text' = text := by
  rw [Directive.set, h] at hset
  exact (Except.ok.inj hset).symm

/-- **One edit** changes at most the setting that it names. -/
theorem sameBut_of_set (h : ofText text = .ok D) (hset : d.set text = .ok text') :
    ∃ E, ofText text' = .ok E ∧ D.SameBut d.setting E := by
  cases hline : d.readableLine with
  | error e =>
    rw [Directive.set, hline] at hset
    cases hset
  | ok r =>
    cases r with
    | none =>
      rw [eq_of_readableLine_none hline hset]
      exact ⟨D, h, .refl _ D⟩
    | some line =>
      obtain ⟨l, hl, htext⟩ := Directive.exists_says hline
      obtain ⟨text'', hset', hrewritten⟩ := Directive.exists_rewritten hline text
      obtain rfl := Except.ok.inj (hset'.symm.trans hset)
      rw [htext] at hrewritten
      obtain ⟨htables, hp⟩ := ofText_eq_ok_iff.1 h
      obtain ⟨q, hq⟩ := hrewritten.exists_read hl hp
      have hsame := hrewritten.tables_run hl {}
      exact ⟨⟨D.tables, q⟩, ofText_of_read (hsame.trans htables) hq, rfl,
        fun k hk ↦ hrewritten.get?_of_ne hl hp hq hk⟩

/-! ## Any number of edits

A run of edits is a fold that stops at the first one that fails.  That the text can be read and has
the same tables is an invariant of the fold.  For a single edit somewhere in the run, the run is
split there: what comes before leaves a text that can be read, and to that one edit applies. -/

/-- A text with directives written into it one after the other. -/
def setAll (ds : List Directive) (text : String) : Except Error String :=
  ds.foldlM (fun text d ↦ d.set text) text

theorem setAll_cons (d : Directive) (ds : List Directive) (text : String) :
    setAll (d :: ds) text = d.set text >>= setAll ds := List.foldlM_cons

theorem setAll_append (ds es : List Directive) (text : String) :
    setAll (ds ++ es) text = setAll ds text >>= setAll es := List.foldlM_append

/-- No number of edits changes a table, or makes a text that cannot be read. -/
theorem exists_ofText_of_setAll {ds : List Directive} (h : ofText text = .ok D)
    (hset : setAll ds text = .ok text') : ∃ E, ofText text' = .ok E ∧ E.tables = D.tables := by
  induction ds generalizing text D with
  | nil =>
    obtain rfl := Except.ok.inj hset
    exact ⟨D, h, rfl⟩
  | cons d ds ih =>
    rw [setAll_cons] at hset
    obtain ⟨mid, hd, hds⟩ := bind_eq_ok_iff.1 hset
    obtain ⟨M, hM, hsame⟩ := sameBut_of_set h hd
    obtain ⟨E, hE, htables⟩ := ih hM hds
    exact ⟨E, hE, htables.trans hsame.tables⟩

/-- **Each of any number of edits** leaves the tables as they were at the start, and all settings
but its own as they were before it; with a directive that no line can say it leaves the text. -/
theorem sameBut_of_setAll {before after : List Directive} (h : ofText text = .ok D)
    (hset : setAll (before ++ d :: after) text = .ok text') :
    ∃ t t' E E', setAll before text = .ok t ∧ d.set t = .ok t' ∧ setAll after t' = .ok text' ∧
      ofText t = .ok E ∧ ofText t' = .ok E' ∧ E.tables = D.tables ∧ E'.tables = D.tables ∧
      (∀ k ≠ d.setting, E'.presentation.get? k = E.presentation.get? k) ∧
      (d.readableLine = .ok none → t' = t) := by
  rw [setAll_append] at hset
  obtain ⟨t, hbefore, hset⟩ := bind_eq_ok_iff.1 hset
  rw [setAll_cons] at hset
  obtain ⟨t', hd, hafter⟩ := bind_eq_ok_iff.1 hset
  obtain ⟨E, hE, htables⟩ := exists_ofText_of_setAll h hbefore
  obtain ⟨E', hE', hsame⟩ := sameBut_of_set hE hd
  exact ⟨t, t', E, E', hbefore, hd, hafter, hE, hE', htables, hsame.tables.trans htables,
    hsame.settings, fun hnone ↦ eq_of_readableLine_none hnone hd⟩

/-- A table that stands at a point. -/
def placed : Diagram :=
  { tables := [⟨"a", [⟨"x", none, {}, none, none⟩]⟩]
    presentation := .ofDirectives [.position "a" ⟨.int 1, .int 1, none⟩] }

theorem sameBut_of_setAll_placed :
    ofText "a\n-\nx\n# a (1, 1)\n" = .ok placed ∧
      setAll ([.color .text "#fff"] ++ .moved :: [.color .text "red"])
        "a\n-\nx\n# a (1, 1)\n" = .ok "a\n-\nx\n# a (5, 5)\n# text-color: #fff\n" ∧
      ∃ t t' E E', setAll [.color .text "#fff"] "a\n-\nx\n# a (1, 1)\n" = .ok t ∧
        Directive.moved.set t = .ok t' ∧
        setAll [.color .text "red"] t' = .ok "a\n-\nx\n# a (5, 5)\n# text-color: #fff\n" ∧
        ofText t = .ok E ∧ ofText t' = .ok E' ∧ E.tables = placed.tables ∧
        E'.tables = placed.tables ∧
        (∀ k ≠ Directive.moved.setting, E'.presentation.get? k = E.presentation.get? k) ∧
        (Directive.moved.readableLine = .ok none → t' = t) := by
  have hread : ofText "a\n-\nx\n# a (1, 1)\n" = .ok placed :=
    ofText_of_read (by decide +kernel) (by decide +kernel)
  have hset : setAll ([.color .text "#fff"] ++ .moved :: [.color .text "red"])
      "a\n-\nx\n# a (1, 1)\n" = .ok "a\n-\nx\n# a (5, 5)\n# text-color: #fff\n" := by
    decide +kernel
  exact ⟨hread, hset, sameBut_of_setAll hread hset⟩

end Diagram

end ErDiagram
