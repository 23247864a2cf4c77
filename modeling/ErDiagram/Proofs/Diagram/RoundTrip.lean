import ErDiagram.Proofs.Diagram.Tables
import ErDiagram.Proofs.Presentation.Rereading

/-!
# Reading a canonical text

A canonical text is read without a fault, whatever diagram it was written for, as long as its tables
are declarable: the tables are read line by line, the presentation off the lines at the end
(`Diagram.ofText_of_collect`).  If the tables are well-formed, they are those that were written
(`Diagram.tables_ofText_text`).  The diagram of a text, written and read back, is the same just in
case it is `Diagram.Restorable` (`Diagram.ofText_text_same_iff`).
-/

set_option autoImplicit false

namespace ErDiagram

open Lexeme Text

/-! ## Lines of tables and directives

The lines of tables are no directives and the lines of directives belong to no table, so each part
of the canonical text is read as if the other were not there. -/

/-- No line of a table is a directive. -/
theorem Table.IsLinewise.idle_of_mem_lines {t : Table} (h : t.IsLinewise) :
    ∀ l ∈ toLists t.lines, (trim l).head? ≠ some '#' := by
  have hunderline := (isLine_underline h.name.ne_nil).trimmed
  refine forall_mem_lines ?_ ?_ fun f hf ↦ ?_
  · rw [h.name.trimmed.trim_eq]
    exact h.name.head
  · intro hhash
    rw [hunderline.trim_eq, underline, String.toList_ofList] at hhash
    exact absurd (List.eq_of_mem_replicate (List.mem_of_head? hhash)) (by decide)
  · obtain ⟨c, hc, hstart⟩ := Field.head?_text (h.fields f hf).name
    refine head?_trim_ne (fun d hd ↦ ?_) fun hhash ↦ ?_
    · obtain rfl := Option.some.inj (hc.symm.trans hd)
      exact isBlank_of_isNameChar (isNameChar_of_isNameStart hstart)
    · obtain rfl := Option.some.inj (hc.symm.trans hhash)
      exact absurd hstart (by decide)

/-- Directives are collected from the block behind the tables, if there is one. -/
theorem Directive.foldlM_collectLine_separated {bs cs : List (List (List Char))}
    (h : ∀ b ∈ bs, ∀ l ∈ b, (trim l).head? ≠ some '#') (hcs : cs.length ≤ 1)
    (found : List Directive) : (separated (bs ++ cs)).foldlM collectLine found =
      cs.flatten.foldlM collectLine found := by
  induction bs with
  | nil =>
    rcases cs with _ | ⟨c, _ | ⟨d, cs⟩⟩
    · rfl
    · rw [List.nil_append, separated_singleton, List.flatten_singleton]
    · simp at hcs
  | cons b bs ih =>
    obtain ⟨hb, hbs⟩ := List.forall_mem_cons.1 h
    have hempty : ∀ l ∈ [([] : List Char)], (trim l).head? ≠ some '#' := by simp
    rw [List.cons_append]
    cases hrest : bs ++ cs with
    | nil =>
      obtain ⟨rfl, rfl⟩ := List.append_eq_nil_iff.1 hrest
      rw [separated_singleton, ← List.append_nil b, foldlM_collectLine_of_idle hb]
      rfl
    | cons c ds =>
      rw [separated_cons_cons, foldlM_collectLine_of_idle hb, ← hrest, ← ih hbs]
      exact foldlM_collectLine_of_idle hempty _

namespace Diagram

variable {d : Diagram} {lines : List String} {s : String}

/-- The directives of a canonical text are those of the lines for its presentation. -/
theorem collect_blocks (h : ∀ t ∈ d.tables, t.IsLinewise) :
    Directive.collect (separated ((d.blocks lines).map toLists)) =
      Directive.collect (toLists lines) := by
  have hidle : ∀ b ∈ d.tables.map (toLists ·.lines), ∀ l ∈ b, (trim l).head? ≠ some '#' := by
    intro b hb
    obtain ⟨t, ht, rfl⟩ := List.mem_map.1 hb
    exact (h t ht).idle_of_mem_lines
  rw [map_toLists_blocks, Directive.collect,
    Directive.foldlM_collectLine_separated hidle (by split <;> simp)]
  split
  · next hempty =>
    rw [List.isEmpty_iff.1 hempty]
    rfl
  · rw [List.flatten_singleton]
    rfl

/-- **What a canonical text is read as**: its tables, each field line read on its own, and the
presentation of the directives in the lines at the end. -/
theorem ofText_of_collect (h : ∀ t ∈ d.tables, t.Declarable)
    (hlines : ∀ l ∈ toLists lines, IsRemark l) {ds : List Directive}
    (hds : Directive.collect (toLists lines) = .ok ds)
    (hs : s.toList = unlines (separated ((d.blocks lines).map toLists))) :
    ofText s = .ok ⟨d.tables.map Table.reread, .ofDirectives ds⟩ := by
  have hlinewise : ∀ t ∈ d.tables, t.IsLinewise := fun t ht ↦ (h t ht).isLinewise
  rw [ofText, ofLines_classify h hlines hs, hs, lines_unlines_blocks hlinewise hlines,
    Presentation.read, collect_blocks hlinewise, hds]
  rfl

/-- The tables of a text and its presentation are read apart. -/
theorem ofText_eq_ok_iff {text : String} : ofText text = .ok d ↔
    Table.ofLines (Line.classify text) = d.tables ∧
      Presentation.read (Text.lines text.toList) = .ok d.presentation := by
  rw [ofText, bind_eq_ok_iff]
  constructor
  · rintro ⟨p, hp, h⟩
    obtain rfl := Except.ok.inj h
    exact ⟨rfl, hp⟩
  · rintro ⟨htables, hp⟩
    refine ⟨_, hp, ?_⟩
    rw [htables]
    rfl

theorem ofText_of_read {text : String} {ts : List Table} {p : Presentation}
    (hts : Table.ofLines (Line.classify text) = ts)
    (hp : Presentation.read (Text.lines text.toList) = .ok p) : ofText text = .ok ⟨ts, p⟩ :=
  ofText_eq_ok_iff.2 ⟨hts, hp⟩

/-! ## Tables that are read back

The presentation has to be read without a fault, or there would be no tables either.  This holds
whatever the presentation, since a directive that could not be read is not written. -/

/-- The lines of a presentation are those of its directives that can be read. -/
theorem of_presentationLines (h : d.presentationLines = .ok lines) :
    ∃ rs, d.directives.mapM Directive.readableLine = .ok rs ∧ rs.filterMap id = lines := by
  obtain ⟨rs, hrs, h⟩ := bind_eq_ok_iff.1 h
  exact ⟨rs, hrs, Except.ok.inj h⟩

/-- **Well-formed tables are read back** from a canonical text, with its presentation or without. -/
theorem tables_ofText_text (h : ∀ t ∈ d.tables, t.WellFormed) {withPresentation : Bool}
    (hs : d.text withPresentation = .ok s) : ∃ e, ofText s = .ok e ∧ e.tables = d.tables := by
  have hdeclarable : ∀ t ∈ d.tables, t.Declarable := fun t ht ↦ (h t ht).declarable
  have htables : d.tables.map Table.reread = d.tables :=
    (map_reread_eq_self_iff hdeclarable).2 fun t ht f hf ↦ ((h t ht).fields f hf).restorable
  obtain ⟨lines, hlines, htext⟩ := toList_text hs
  obtain ⟨ds, hdenotes, hds⟩ : ∃ ds, List.Forall₂ Denotes (toLists lines) ds ∧
      Directive.collect (toLists lines) = .ok ds := by
    split at hlines
    · obtain ⟨rs, hrs, rfl⟩ := of_presentationLines hlines
      exact Directive.exists_collect hrs
    · rw [hlines]
      exact ⟨[], .nil, rfl⟩
  have hremarks := Directive.isRemark_of_denotes hdenotes
  exact ⟨_, ofText_of_collect hdeclarable hremarks hds htext, htables⟩

/-- A table that refers to itself. -/
def selfReferring : Diagram :=
  { tables := [⟨"a", [⟨"b", some "c", { fk := true }, some ⟨"a", "b", ">-"⟩, some "1"⟩]⟩]
    presentation := .ofDirectives [] }

theorem wellFormed_selfReferring : ∀ t ∈ selfReferring.tables, t.WellFormed := by
  have hname {c : Char} (hc : isNameStart c = true) : IsName [c] := ⟨hc, .nil⟩
  have hfield : Field.WellFormed
      ⟨"b", some "c", { fk := true }, some ⟨"a", "b", ">-"⟩, some "1"⟩ := by
    refine ⟨⟨hname (by decide), ?_, rfl, rfl, ?_⟩, by decide, ?_⟩
    · rintro t ⟨⟩
      exact ⟨.word ⟨hname (by decide), by decide⟩, isUnbroken_of_any (by decide)⟩
    · rintro v ⟨⟩
      have hdigits : IsDigits "1".toList := ⟨by decide, List.all_eq_true.1 (by decide)⟩
      exact ⟨.atom (.inr (.inr (.inl (.unsigned (.whole hdigits))))), isUnbroken_of_any (by decide)⟩
    · rintro r ⟨⟩
      exact ⟨hname (by decide), hname (by decide), by decide⟩
  refine List.forall_mem_singleton.2 ⟨⟨isLine_of_any (by decide) (by decide), by decide,
    'a', by decide, by decide⟩, List.forall_mem_singleton.2 hfield⟩

theorem text_selfReferring :
    selfReferring.text true = .ok "a\n-\nb c default 1 fk >- a.b\n" := rfl

theorem tables_ofText_text_selfReferring :
    (∀ t ∈ selfReferring.tables, t.WellFormed) ∧
      selfReferring.text true = .ok "a\n-\nb c default 1 fk >- a.b\n" ∧
      ∃ e, ofText "a\n-\nb c default 1 fk >- a.b\n" = .ok e ∧
        e.tables = selfReferring.tables :=
  ⟨wellFormed_selfReferring, text_selfReferring,
    tables_ofText_text wellFormed_selfReferring text_selfReferring⟩

/-! ## Diagrams that are read back

A diagram that was read has declarable tables and a sound presentation, so it is known for each
field and each setting whether it is read back.  The diagram is the same just in case they all are:
no field can make up for another one. -/

/-- A diagram is found again in its text. -/
structure Restorable (d : Diagram) : Prop where
  /-- The fields are found again in their lines. -/
  fields : ∀ t ∈ d.tables, ∀ f ∈ t.fields, f.Restorable
  /-- The presentation is found again in its lines. -/
  presentation : d.presentation.Restorable

/-- **The diagram of a text, written and read back**, is the same just in case it is restorable. -/
theorem ofText_text_same_iff {t : String} (ht : ofText t = .ok d) (hs : d.text true = .ok s) :
    ∃ e, ofText s = .ok e ∧ (e.same d = true ↔ d.Restorable) := by
  obtain ⟨p, hp, hd⟩ := bind_eq_ok_iff.1 ht
  obtain rfl := Except.ok.inj hd
  have hdeclarable := Table.declarable_of_mem_ofLines (s := t)
  obtain ⟨lines, hlines, htext⟩ := toList_text hs
  obtain ⟨rs, hrs, rfl⟩ := of_presentationLines hlines
  obtain ⟨ds, hdenotes, hds, hsame⟩ :=
    Presentation.exists_same_iff (Presentation.sound_of_read hp) hrs
  refine ⟨_, ofText_of_collect hdeclarable (Directive.isRemark_of_denotes hdenotes) hds htext, ?_⟩
  rw [same, Bool.and_eq_true, beq_iff_eq, map_reread_eq_self_iff hdeclarable, hsame]
  exact ⟨fun h ↦ ⟨h.1, h.2⟩, fun h ↦ ⟨h.1, h.2⟩⟩

theorem ofText_selfReferring :
    ofText "a\n-\nb c default 1 fk >- a.b\n" = .ok selfReferring :=
  ofText_of_read (by decide +kernel) rfl

theorem ofText_text_same_iff_selfReferring :
    ofText "a\n-\nb c default 1 fk >- a.b\n" = .ok selfReferring ∧
      selfReferring.text true = .ok "a\n-\nb c default 1 fk >- a.b\n" ∧
      ∃ e, ofText "a\n-\nb c default 1 fk >- a.b\n" = .ok e ∧
        (e.same selfReferring = true ↔ selfReferring.Restorable) :=
  ⟨ofText_selfReferring, text_selfReferring,
    ofText_text_same_iff ofText_selfReferring text_selfReferring⟩

/-- A table with a field that suggests a table without a name. -/
def nameless : Diagram :=
  { tables := [⟨"a", [⟨"_id", none, { fk := true }, some ⟨"", "id", ">-"⟩, none⟩]⟩]
    presentation := .ofDirectives [] }

/-- **Writing may change what a text means**: the word behind the point becomes a type. -/
theorem not_same_nameless :
    ofText "a\n-\n_id fk\n" = .ok nameless ∧
      nameless.text true = .ok "a\n-\n_id fk >- .id\n" ∧
      ∃ e, ofText "a\n-\n_id fk >- .id\n" = .ok e ∧ e.same nameless = false := by
  refine ⟨ofText_of_read (by decide +kernel) rfl, rfl, ?_⟩
  let typed : Table := ⟨"a", [⟨"_id", some "id", { fk := true }, some ⟨"", "id", ">-"⟩, none⟩]⟩
  have htables : Table.ofLines (Line.classify "a\n-\n_id fk >- .id\n") = [typed] := by
    decide +kernel
  exact ⟨_, ofText_of_read htables rfl, by decide +kernel⟩

end Diagram

end ErDiagram
