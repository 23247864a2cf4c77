import ErDiagram.Proofs.Diagram.RoundTrip

/-!
# Formatting settles

Formatting without the presentation reads every field line on its own and writes it again
(`Diagram.format_tablesText`).  A first reading may lose a default value `-0`, and only then does
the reference of the field come to be read; a second one may drop a table that is no name.  What
has been read off a canonical text twice is restorable
(`Field.Declarable.restorable_of_ofText?_text`), so that the third pass writes what every later one
reads and writes again (`Diagram.format_settles`).
-/

set_option autoImplicit false

namespace ErDiagram

open Text

/-! ## Fields and tables

A field is followed through two readings by the cases of `RereadAs`.  After the first reading there
is no default value `-0`, and after the second one every reference that is left is found again, as
the type that it needs has been put there by the reading before. -/

/-- A field whose line was read off a canonical text is found again after one more reading. -/
theorem Field.Declarable.restorable_of_ofText?_text {f g h : Field} (hf : f.Declarable)
    (hg : ofText? f.text.toList = some g) (hh : ofText? g.text.toList = some h) :
    h.Restorable := by
  have hdefault : g.default ≠ some "-0" := by
    rw [hf.default_of_ofText?_text hg]
    split
    · exact nofun
    · assumption
  have hgd : g.Declarable := declarable_of_ofText? hf.isLine_text.unbroken hg
  exact (hgd.rereadAs hdefault hh).restorable hdefault

namespace Table.Declarable

variable {t : Table}

theorem reread (h : t.Declarable) : t.reread.Declarable := by
  refine ⟨h.name, fun g hg ↦ ?_⟩
  obtain ⟨f, hf, hread⟩ := List.mem_filterMap.1 hg
  exact Field.declarable_of_ofText? (h.fields f hf).isLine_text.unbroken hread

/-- A table read twice stays as it is. -/
theorem reread_reread_reread (h : t.Declarable) : t.reread.reread.reread = t.reread.reread := by
  refine h.reread.reread.reread_eq_self_iff.2 fun f₂ hf₂ ↦ ?_
  obtain ⟨f₁, hf₁, h₂⟩ := List.mem_filterMap.1 hf₂
  obtain ⟨f, hf, h₁⟩ := List.mem_filterMap.1 hf₁
  exact (h.fields f hf).restorable_of_ofText?_text h₁ h₂

end Table.Declarable

/-! ## Texts

As formatting writes nothing but tables, formatting a canonical text is rereading each of its
tables, and the passes are iterates of `reread`.  The second and the third iterate are the same. -/

namespace Diagram

variable {d : Diagram}

/-- A diagram as it is read off its text without the presentation. -/
def reread (d : Diagram) : Diagram := ⟨d.tables.map Table.reread, .ofDirectives []⟩

theorem ofText_tablesText (h : ∀ t ∈ d.tables, t.Declarable) :
    ofText d.tablesText = .ok d.reread := by
  have htext : d.text false = .ok d.tablesText := rfl
  obtain ⟨lines, hlines, htext⟩ := toList_text htext
  obtain rfl : lines = [] := hlines
  exact ofText_of_collect h (List.forall_mem_nil _) rfl htext

/-- **Formatting a text without presentation** reads every table once. -/
theorem format_tablesText (h : ∀ t ∈ d.tables, t.Declarable) :
    format d.tablesText false = .ok d.reread.tablesText :=
  bind_eq_ok_iff.2 ⟨_, ofText_tablesText h, rfl⟩

theorem declarable_reread (h : ∀ t ∈ d.tables, t.Declarable) :
    ∀ t ∈ d.reread.tables, t.Declarable :=
  List.forall_mem_map.2 fun t ht ↦ (h t ht).reread

theorem reread_reread_reread (h : ∀ t ∈ d.tables, t.Declarable) :
    d.reread.reread.reread = d.reread.reread := by
  have htables : ((d.tables.map Table.reread).map Table.reread).map Table.reread =
      (d.tables.map Table.reread).map Table.reread := by
    simp only [List.map_map]
    exact List.map_congr_left fun t ht ↦ (h t ht).reread_reread_reread
  rw [reread, reread, reread, htables]

/-- **Formatting settles**: no pass fails, and none behind the third changes the text. -/
theorem format_settles {t : String} (ht : ofText t = .ok d) : ∃ t₁ t₂ t₃,
    format t false = .ok t₁ ∧ format t₁ false = .ok t₂ ∧ format t₂ false = .ok t₃ ∧
      format t₃ false = .ok t₃ := by
  have h₀ : ∀ t ∈ d.tables, t.Declarable := by
    rw [← (ofText_eq_ok_iff.1 ht).1]
    exact Table.declarable_of_mem_ofLines
  have h₁ := declarable_reread h₀
  have h₂ := declarable_reread h₁
  refine ⟨d.tablesText, d.reread.tablesText, d.reread.reread.tablesText,
    bind_eq_ok_iff.2 ⟨d, ht, rfl⟩, format_tablesText h₀, format_tablesText h₁, ?_⟩
  rw [format_tablesText h₂, reread_reread_reread h₀]

/-- A table with a default value that reads as a relation. -/
def minusZero : Diagram :=
  { tables := [⟨"a", [⟨"_id", none, {}, none, some "-0"⟩]⟩]
    presentation := .ofDirectives [] }

theorem format_settles_minusZero :
    ofText "a\n-\n_id default -0,\n" = .ok minusZero ∧ ∃ t₁ t₂ t₃,
      format "a\n-\n_id default -0,\n" false = .ok t₁ ∧ format t₁ false = .ok t₂ ∧
        format t₂ false = .ok t₃ ∧ format t₃ false = .ok t₃ := by
  have hread : ofText "a\n-\n_id default -0,\n" = .ok minusZero :=
    ofText_of_read (by decide +kernel) rfl
  exact ⟨hread, format_settles hread⟩

/-- The third pass may be the first that changes nothing behind it. -/
example : minusZero.tablesText = "a\n-\n_id default -0\n" ∧
    minusZero.reread.tablesText = "a\n-\n_id fk -0 .id\n" ∧
    minusZero.reread.reread.tablesText = "a\n-\n_id id fk -0 .id\n" := by
  decide +kernel

end Diagram

end ErDiagram
