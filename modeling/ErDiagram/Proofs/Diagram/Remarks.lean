import ErDiagram.Proofs.Diagram.RoundTrip

/-!
# Lines that no table looks at

A line that starts with a number sign declares nothing, and it is never one of dashes, so that it
makes no header of the line above it.  Any two such lines can stand in for each other
(`TableReader.run_congr`), and any number of them, and of empty lines, can be put behind a text
(`TableReader.tables_run_append`).  Taking one out moves the lines around it together: no table
changes unless that puts dashes below a text line (`TableReader.run_append_of_head`).  For whole
texts `Diagram.tables_eq_of_remarks` says all this.
-/

set_option autoImplicit false

namespace ErDiagram

open Text

/-! ## Kinds of lines

The kind of a line depends on the line itself and on whether the line below it is one of dashes.  So
there are two things to show of a line that starts with a number sign: it adds nothing itself, and
it does to the line above just what any other such line does. -/

namespace Line

variable {l m : List Char}

/-- Of the line below it matters only whether it is one of dashes, and only to a text line. -/
theorem kindAbove_congr {below below' : Option (List Char)}
    (h : baseKind l = .text → (below.map baseKind = some .dashes ↔
      below'.map baseKind = some .dashes)) : kindAbove l below = kindAbove l below' := by
  simp only [kindAbove, and_congr_right h]

/-- A line that is empty or starts with a number sign is not one of dashes. -/
theorem baseKind_ne_dashes (h : l = [] ∨ l.head? = some '#') : baseKind l ≠ .dashes := by
  rcases h with rfl | h
  · decide
  · rcases baseKind_of_head h with hk | hk <;> simp [hk]

/-- Two lines that are equal, or both start with a number sign. -/
def Alike (l m : List Char) : Prop := l = m ∨ l.head? = some '#' ∧ m.head? = some '#'

theorem Alike.refl (l : List Char) : Alike l l := .inl rfl

theorem Alike.baseKind_eq_dashes_iff (h : Alike l m) :
    baseKind l = .dashes ↔ baseKind m = .dashes := by
  rcases h with rfl | ⟨hl, hm⟩
  · exact Iff.rfl
  · exact iff_of_false (baseKind_ne_dashes (.inr hl)) (baseKind_ne_dashes (.inr hm))

/-- What stands between these lines keeps a text line apart from dashes. -/
def KeptApart (before after : List (List Char)) : Prop :=
  (∃ m ∈ before.getLast?, baseKind m = .text) ∧ ∃ m ∈ after.head?, baseKind m = .dashes

end Line

/-! ## Running the reader

These go by induction on the lines above.  A line above reads the same if the first line below it is
of dashes in both texts or in neither, which is where a line that is taken out may make a
difference: it may have kept a text line from becoming a header. -/

namespace TableReader

variable {r : TableReader} {before after ls ms idle : List (List Char)} {l old new : List Char}

/-- Lines that start with a number sign can stand in for each other. -/
theorem run_congr (h : List.Forall₂ Line.Alike ls ms) : r.run ls = r.run ms := by
  induction h generalizing r with
  | nil => rfl
  | @cons l m ls ms hlm hrest ih =>
    rcases hlm with rfl | ⟨hl, hm⟩
    · have hkind : Line.kindAbove l ls.head? = Line.kindAbove l ms.head? := by
        refine Line.kindAbove_congr fun _ ↦ ?_
        cases hrest with
        | nil => exact Iff.rfl
        | cons hbelow => simp [hbelow.baseKind_eq_dashes_iff]
      rw [run_cons, run_cons, hkind, ih]
    · rw [run_cons_of_head hl, run_cons_of_head hm, ih]

theorem run_append_cons (hold : old.head? = some '#') (hnew : new.head? = some '#') :
    r.run (before ++ old :: after) = r.run (before ++ new :: after) := by
  have hsame (ls : List (List Char)) : List.Forall₂ Line.Alike ls ls :=
    List.forall₂_same.2 fun l _ ↦ .refl l
  exact run_congr (List.rel_append (hsame before) (.cons (.inr ⟨hold, hnew⟩) (hsame after)))

/-- Lines that are empty or start with a number sign declare nothing. -/
theorem tables_run_of_idle (h : ∀ l ∈ idle, l = [] ∨ l.head? = some '#') :
    (r.run idle).tables = r.tables := by
  induction idle generalizing r with
  | nil => rfl
  | cons l idle ih =>
    obtain ⟨hl, hidle⟩ := List.forall_mem_cons.1 h
    rcases hl with rfl | hl
    · rw [run_blank, ih hidle]
      simp [tables]
    · rw [run_cons_of_head hl, ih hidle]

/-- Nor do they matter to the lines above. -/
theorem tables_run_append (h : ∀ l ∈ idle, l = [] ∨ l.head? = some '#') :
    (r.run (ls ++ idle)).tables = (r.run ls).tables := by
  induction ls generalizing r with
  | nil => exact tables_run_of_idle h
  | cons l ls ih =>
    have hkind : Line.kindAbove l (ls ++ idle).head? = Line.kindAbove l ls.head? := by
      refine Line.kindAbove_congr fun _ ↦ ?_
      rcases ls with _ | ⟨m, ls⟩
      · rcases idle with _ | ⟨m, idle⟩
        · exact Iff.rfl
        · simp [Line.baseKind_ne_dashes (h m List.mem_cons_self)]
      · exact Iff.rfl
    rw [List.cons_append, run_cons, run_cons, hkind, ih]

/-- A line that starts with a number sign can be taken out, unless it keeps a text line apart from
dashes. -/
theorem run_append_of_head (h : l.head? = some '#') (hapart : ¬ Line.KeptApart before after) :
    r.run (before ++ l :: after) = r.run (before ++ after) := by
  induction before generalizing r with
  | nil => exact run_cons_of_head h
  | cons b before ih =>
    rw [List.cons_append, List.cons_append, run_cons, run_cons]
    rcases before with _ | ⟨c, before⟩
    · -- the line above the one that is taken out
      have hkind : Line.kindAbove b (some l) = Line.kindAbove b after.head? := by
        refine Line.kindAbove_congr fun htext ↦ iff_of_false ?_ fun hbelow ↦ ?_
        · simpa using Line.baseKind_ne_dashes (.inr h)
        · exact hapart ⟨⟨b, rfl, htext⟩, by simpa using hbelow⟩
      rw [List.nil_append, List.head?_cons, hkind, run_cons_of_head h, List.nil_append]
    · rw [ih (by simpa [Line.KeptApart] using hapart)]
      rfl

end TableReader

/-! ## Whole texts

For a text the same is said of its lines, without the blanks around them.  The presentations of the
two texts may be as different as they like. -/

namespace Diagram

/-- The tables of a text are those of its lines without the blanks around them. -/
theorem tables_of_ofText {s : String} {d : Diagram} (h : ofText s = .ok d) :
    d.tables = (TableReader.run {} ((lines s.toList).map trim)).tables :=
  (ofText_eq_ok_iff.1 h).1.symm

/-- **Comments and directives matter to no table.**  Two texts have the same tables if their lines,
without the blanks around them, are equal one by one or both start with a number sign; and taking
out a line that starts with one changes no table unless it keeps a text line apart from dashes. -/
theorem tables_eq_of_remarks {s t : String} {d e : Diagram} (hs : ofText s = .ok d)
    (ht : ofText t = .ok e) :
    (List.Forall₂ (fun l m ↦ Line.Alike (trim l) (trim m)) (lines s.toList) (lines t.toList) →
      d.tables = e.tables) ∧
    ∀ before l after, lines s.toList = before ++ l :: after → lines t.toList = before ++ after →
      (trim l).head? = some '#' → ¬ Line.KeptApart (before.map trim) (after.map trim) →
      d.tables = e.tables := by
  rw [tables_of_ofText hs, tables_of_ofText ht]
  constructor
  · intro h
    rw [TableReader.run_congr (List.forall₂_map_left_iff.2 (List.forall₂_map_right_iff.2 h))]
  · intro before l after hls hlt hhead hapart
    rw [hls, hlt, List.map_append, List.map_cons, List.map_append,
      TableReader.run_append_of_head hhead hapart]

/-- A table with one field, drawn as directives say. -/
def drawn (ds : List Directive) : Diagram :=
  { tables := [⟨"a", [⟨"x", none, {}, none, none⟩]⟩]
    presentation := .ofDirectives ds }

theorem tables_eq_of_remarks_drawn :
    ofText "a\n-\n# text-color: #fff\nx\n" = .ok (drawn [.color .text "#fff"]) ∧
      ofText "a\n-\n  # text-bg: #eee\nx\n" = .ok (drawn [.color .textBackground "#eee"]) ∧
      ofText "a\n-\nx\n" = .ok (drawn []) ∧
      (drawn [.color .text "#fff"]).tables = (drawn [.color .textBackground "#eee"]).tables ∧
      (drawn [.color .text "#fff"]).tables = (drawn []).tables := by
  have hcolor : ofText "a\n-\n# text-color: #fff\nx\n" = .ok (drawn [.color .text "#fff"]) :=
    ofText_of_read (by decide +kernel) (by decide +kernel)
  have hshade : ofText "a\n-\n  # text-bg: #eee\nx\n" =
      .ok (drawn [.color .textBackground "#eee"]) :=
    ofText_of_read (by decide +kernel) (by decide +kernel)
  have hbare : ofText "a\n-\nx\n" = .ok (drawn []) :=
    ofText_of_read (by decide +kernel) (by decide +kernel)
  refine ⟨hcolor, hshade, hbare, (tables_eq_of_remarks hcolor hshade).1 ?_,
    (tables_eq_of_remarks hcolor hbare).2 [['a'], ['-']] "# text-color: #fff".toList [['x']]
      (by decide +kernel) (by decide +kernel) (by decide +kernel) ?_⟩
  · exact .cons (.inl rfl) (.cons (.inl rfl) (.cons (.inr ⟨rfl, rfl⟩) (.cons (.inl rfl) .nil)))
  · rintro ⟨⟨m, ⟨⟩, htext⟩, -⟩
    exact absurd htext (by decide)

/-- A remark between a name and its dashes keeps the name from being a header. -/
example : Table.ofLines (Line.classify "a\n# c\n-\n") = [] ∧
    Table.ofLines (Line.classify "a\n-\n") = [⟨"a", []⟩] := by
  decide +kernel

end Diagram

end ErDiagram
