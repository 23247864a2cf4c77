import Mathlib.Data.List.Induction
import ErDiagram.Proofs.Presentation.Writing

/-!
# The lines that make up a presentation

Any number of lines of a text may make a claim to the same setting.  Those that are *heeded* are the
first claim to a slot that holds one value and every claim to a position (`DirectiveLine.heeded`);
no other line is evaluated.

Of a text the presentation depends on nothing else.  It can be read just in case every line that is
heeded has a value (`Presentation.exists_read_iff`), and it holds for each setting the value of the
last line that is heeded (`Presentation.get?_of_read`).

Whether a line is heeded depends on the lines above it but not on their values; so the lines that
are heeded can be listed before any is evaluated, and the pass over a text is the evaluation of this
list, one line after the other (`Directive.collect_eq_mapM`).  From there on a text is its list of
claims.  What one setting has to do with another is then gone: the claims that are heeded for a
setting can be picked from the claims to this setting alone (`DirectiveLine.filter_allHeeded`), and
two texts with the same claims to a setting agree on it.

`Presentation.get?` reads a presentation in the same manner, setting by setting.  That it gives a
directive and not a value makes it possible to speak of all settings at once.
-/

set_option autoImplicit false

namespace ErDiagram

open Text

/-- What a presentation holds for a setting. -/
def Presentation.get? (p : Presentation) : Setting → Option Directive
  | .view => p.view.map .view
  | .zoom => p.zoom.map .zoom
  | .color role => (p.color role).map (.color role)
  | .position table => (p.positions.get? table).map (.position table)

/-! ## Lines that are heeded

Two descriptions of the same lines: those of a whole text, where a line takes back the claims below
it for its slot (`allHeeded`), and those for a single setting (`heeded`). -/

namespace DirectiveLine

/-- The directive lines among the lines of a text. -/
def ofLines (lines : List (List Char)) : List DirectiveLine :=
  lines.filterMap fun line ↦ recognise? (trim line)

theorem ofLines_append (ls ms : List (List Char)) :
    ofLines (ls ++ ms) = ofLines ls ++ ofLines ms := List.filterMap_append

/-- Whether a line is heeded although a line for slot `s` stands above it. -/
def heededBelow (s : Slot) (l : DirectiveLine) : Bool := l.slot = .position || l.slot ≠ s

/-- The lines that are heeded: the first of each slot that holds one value, and every position
line. -/
def allHeeded : List DirectiveLine → List DirectiveLine
  | [] => []
  | l :: ls => l :: (allHeeded ls).filter (heededBelow l.slot)

/-- The lines that are heeded of those that make a claim to a setting. -/
def heeded (k : Setting) (ls : List DirectiveLine) : List DirectiveLine :=
  if k.slot = .position then ls.filter (·.setting = k) else (ls.filter (·.setting = k)).take 1

variable {k : Setting} {l : DirectiveLine} {ls : List DirectiveLine}

/-- Below a line for a slot all claims are heeded or none, for each setting. -/
theorem filter_heededBelow (s : Slot) (k : Setting) (ls : List DirectiveLine) :
    (ls.filter (heededBelow s)).filter (·.setting = k) =
      if k.slot = .position ∨ k.slot ≠ s then ls.filter (·.setting = k) else [] := by
  have hbelow : ∀ m ∈ ls, m.setting = k →
      heededBelow s m = decide (k.slot = .position ∨ k.slot ≠ s) := by
    rintro m - rfl
    simp [heededBelow]
  rw [List.filter_filter]
  split
  · next h =>
    refine List.filter_congr ?_
    intro m hm
    by_cases hk : m.setting = k
    · simp [hk, hbelow m hm hk, h]
    · simp [hk]
  · next h =>
    refine List.filter_eq_nil_iff.2 ?_
    intro m hm
    by_cases hk : m.setting = k
    · simp [hk, hbelow m hm hk, h]
    · simp [hk]

/-- What is heeded can be found for each setting on its own. -/
theorem filter_allHeeded (k : Setting) (ls : List DirectiveLine) :
    (allHeeded ls).filter (·.setting = k) = heeded k ls := by
  induction ls with
  | nil => simp [allHeeded, heeded]
  | cons l ls ih =>
    rw [allHeeded]
    by_cases hl : l.setting = k
    · rw [List.filter_cons_of_pos (by simpa using hl), filter_heededBelow, ih, heeded, heeded,
        List.filter_cons_of_pos (by simpa using hl)]
      by_cases hposition : k.slot = .position
      · simp [hposition]
      · -- nothing of this scalar is heeded below its first line
        have hself : ¬(k.slot = .position ∨ k.slot ≠ l.slot) := by
          rw [← slot_setting l, hl]
          simpa using hposition
        rw [if_neg hself, if_neg hposition]
        rfl
    · have hbelow : k.slot = .position ∨ k.slot ≠ l.slot := by
        by_cases hposition : k.slot = .position
        · exact .inl hposition
        · exact .inr fun hs ↦ hl (Setting.eq_of_slot_eq (by simpa using hs.symm) hposition)
      rw [List.filter_cons_of_neg (by simpa using hl), filter_heededBelow, if_pos hbelow, ih,
        heeded, heeded, List.filter_cons_of_neg (by simpa using hl)]

/-- A line is heeded just in case it is heeded for its own setting. -/
theorem mem_allHeeded : l ∈ allHeeded ls ↔ l ∈ heeded l.setting ls := by
  rw [← filter_allHeeded, List.mem_filter]
  simp

/-- At most one line for a slot that holds one value is heeded. -/
theorem length_heeded_le (hk : k.slot ≠ .position) : (heeded k ls).length ≤ 1 := by
  rw [heeded, if_neg hk, List.length_take]
  exact Nat.min_le_left _ _

end DirectiveLine

/-! ## Directives of lines that are heeded

A line counts in the pass if it is not taken back by any directive found so far; after one more
directive it has to pass one more test, and this is the test by which `allHeeded` leaves lines
out. -/

namespace Directive

open DirectiveLine

variable {found : List Directive} {l : DirectiveLine}

theorem counts_append (found : List Directive) (d : Directive) (l : DirectiveLine) :
    counts (found ++ [d]) l.slot = (counts found l.slot && heededBelow d.slot l) := by
  by_cases hposition : l.slot = .position
  · simp [counts, heededBelow, hposition]
  · simp [counts, heededBelow, hposition, eq_comm]

/-- A line that does not count stands below another for its slot. -/
theorem heededBelow_of_counts (h : ¬counts found l.slot = true) {m : DirectiveLine}
    (hm : counts found m.slot = true) : heededBelow l.slot m = true := by
  by_cases hs : m.slot = l.slot
  · exact absurd (hs ▸ hm) h
  · simp [heededBelow, hs]

theorem filter_counts_append {d : Directive} (hvalue : l.value = .ok d) (ls : List DirectiveLine) :
    ls.filter (counts (found ++ [d]) ·.slot) =
      (ls.filter (heededBelow l.slot)).filter (counts found ·.slot) := by
  rw [List.filter_filter]
  refine List.filter_congr ?_
  intro m _
  rw [counts_append, slot_of_value hvalue]

theorem filter_counts_of_not_counts (h : ¬counts found l.slot = true) (ls : List DirectiveLine) :
    ls.filter (counts found ·.slot) =
      (ls.filter (heededBelow l.slot)).filter (counts found ·.slot) := by
  rw [List.filter_filter]
  refine List.filter_congr ?_
  intro m _
  by_cases hm : counts found m.slot = true
  · simp [hm, heededBelow_of_counts h hm]
  · simp [hm]

/-- The pass over the lines evaluates those that are heeded. -/
theorem foldlM_collectLine (found : List Directive) (lines : List (List Char)) :
    lines.foldlM collectLine found =
      (((allHeeded (ofLines lines)).filter (counts found ·.slot)).mapM value).map
        (found ++ ·) := by
  induction lines generalizing found with
  | nil => exact congrArg Except.ok (List.append_nil found).symm
  | cons line lines ih =>
    rw [List.foldlM_cons]
    cases hl : recognise? (trim line) with
    | none =>
      have hskip : ofLines (line :: lines) = ofLines lines := List.filterMap_cons_none hl
      rw [hskip, collectLine_of_none hl]
      exact ih found
    | some l =>
      have htake : ofLines (line :: lines) = l :: ofLines lines := List.filterMap_cons_some hl
      rw [htake, allHeeded]
      by_cases hcounts : counts found l.slot = true
      · rw [collectLine_of_counts hl hcounts, List.filter_cons_of_pos (by simpa using hcounts),
          List.mapM_cons]
        cases hvalue : l.value with
        | error e => rfl
        | ok d =>
          show lines.foldlM collectLine (found ++ [d]) = _
          -- with the new directive collected, the lines that count are those heeded below it
          rw [ih, filter_counts_append hvalue]
          cases (((allHeeded (ofLines lines)).filter (heededBelow l.slot)).filter
              (counts found ·.slot)).mapM value with
          | error e => rfl
          | ok ds => exact congrArg Except.ok (List.append_assoc found [d] ds)
      · rw [collectLine_of_not_counts hl hcounts, List.filter_cons_of_neg (by simpa using hcounts),
          ← filter_counts_of_not_counts hcounts]
        exact ih found

/-- **The directives of a text** are the values of the lines that are heeded. -/
theorem collect_eq_mapM (lines : List (List Char)) :
    collect lines = (allHeeded (ofLines lines)).mapM value := by
  have hall : (allHeeded (ofLines lines)).filter (counts [] ·.slot) = allHeeded (ofLines lines) :=
    List.filter_eq_self.2 fun l _ ↦ by simp [counts]
  rw [collect, foldlM_collectLine, hall]
  cases (allHeeded (ofLines lines)).mapM value <;> rfl

end Directive

/-! ## The presentation of a text

A presentation made from directives holds for each setting the first or the last of its directives,
depending on the slot.  Among those that are heeded there is only one for a slot that holds one
value, so it is the last in either case. -/

namespace Presentation

open Directive DirectiveLine

variable {ds : List Directive} {k : Setting}

/-! ### Directives for one setting

Taking the first directive that sets a value is taking the first one for the setting, and putting
positions one over the other keeps the last one for each name. -/

theorem map_findSome? {α : Type} {f : Directive → Option α} {c : α → Directive}
    (h : ∀ d, (f d).map c = if d.setting = k then some d else none) (ds : List Directive) :
    (ds.findSome? f).map c = (ds.filter (·.setting = k)).head? := by
  induction ds with
  | nil => rfl
  | cons d ds ih =>
    have hd := h d
    by_cases hk : d.setting = k
    · rw [if_pos hk] at hd
      obtain ⟨a, ha, hca⟩ := Option.map_eq_some_iff.1 hd
      rw [List.findSome?_cons_of_isSome (by simp [ha]), List.filter_cons_of_pos (by simpa using hk)]
      exact hd
    · rw [if_neg hk] at hd
      rw [List.findSome?_cons_of_isNone (by simpa using hd),
        List.filter_cons_of_neg (by simpa using hk)]
      exact ih

/-- Of each slot that holds one value the first directive counts. -/
theorem get?_ofDirectives_of_ne (hk : k.slot ≠ .position) (ds : List Directive) :
    (ofDirectives ds).get? k = (ds.filter (·.setting = k)).head? := by
  cases k with
  | view => exact map_findSome? (fun d ↦ by cases d <;> rfl) ds
  | zoom => exact map_findSome? (fun d ↦ by cases d <;> rfl) ds
  | color role =>
    rw [get?, color_ofDirectives]
    refine map_findSome? ?_ ds
    intro d
    cases d with
    | view | zoom | position => rfl
    | color role' value =>
      by_cases hrole : role' = role <;> simp [colorValue?, Directive.setting, hrole]
  | position => exact absurd rfl hk

/-- Of each table the last position counts. -/
theorem get?_ofDirectives_position (table : String) (ds : List Directive) :
    (ofDirectives ds).get? (.position table) =
      (ds.filter (·.setting = .position table)).getLast? := by
  show ((Positions.ofList (ds.filterMap (·.positionValue?))).get? table).map
    (Directive.position table) = _
  -- a later entry replaces an earlier one, so the directives are added at the end
  induction ds using List.reverseRecOn with
  | nil => rfl
  | append_singleton ds d ih =>
    rw [List.filterMap_append, List.filter_append]
    by_cases hd : d.setting = .position table
    · obtain ⟨place, rfl⟩ : ∃ place, d = .position table place := by
        cases d with
        | view | zoom | color => cases hd
        | position t place => exact ⟨place, by rw [Setting.position.inj hd]⟩
      rw [List.filter_cons_of_pos (by simpa using hd), List.filter_nil, List.getLast?_concat]
      show ((Positions.ofList (_ ++ [(table, place)])).get? table).map _ = _
      rw [Positions.ofList_concat, Positions.get?_put, if_pos rfl]
      rfl
    · rw [List.filter_cons_of_neg (by simpa using hd), List.filter_nil, List.append_nil, ← ih]
      cases d with
      | view | zoom | color =>
        rw [List.filterMap_cons_none rfl, List.filterMap_nil, List.append_nil]
      | position t place =>
        have ht : ¬t = table := fun h ↦ hd (congrArg Setting.position h)
        show ((Positions.ofList (_ ++ [(t, place)])).get? table).map _ = _
        rw [Positions.ofList_concat, Positions.get?_put, if_neg ht]

theorem head?_eq_getLast? {l : List Directive} (h : l.length ≤ 1) : l.head? = l.getLast? := by
  rcases l with _ | ⟨d, _ | ⟨e, es⟩⟩
  · rfl
  · rfl
  · simp at h

/-- The presentation of directives of which no two are for the same slot that holds one value. -/
theorem get?_ofDirectives (h : k.slot ≠ .position → (ds.filter (·.setting = k)).length ≤ 1) :
    (ofDirectives ds).get? k = (ds.filter (·.setting = k)).getLast? := by
  by_cases hk : k.slot = .position
  · cases k with
    | view | zoom | color => cases hk
    | position table => exact get?_ofDirectives_position table ds
  · rw [get?_ofDirectives_of_ne hk]
    exact head?_eq_getLast? (h hk)

/-- The values of lines for a setting are the directives for it. -/
theorem forall₂_filter_setting {ls : List DirectiveLine}
    (h : List.Forall₂ (fun l d ↦ l.value = .ok d) ls ds) (k : Setting) :
    List.Forall₂ (fun l d ↦ l.value = .ok d) (ls.filter (·.setting = k))
      (ds.filter (·.setting = k)) := by
  refine List.rel_filter (fun l d hd ↦ ?_) h
  show decide (l.setting = k) = true ↔ decide (d.setting = k) = true
  rw [setting_of_value hd]

theorem getLast?_of_forall₂ {ls : List DirectiveLine}
    (h : List.Forall₂ (fun l d ↦ l.value = .ok d) ls ds) :
    ds.getLast? = ls.getLast?.bind (·.value.toOption) := by
  induction h with
  | nil => rfl
  | @cons l d ls ds hd hds ih =>
    cases hds with
    | nil => simp [hd, Except.toOption]
    | cons => simpa using ih

variable {lines : List (List Char)} {p : Presentation}

/-- **A text can be read** just in case all lines that are heeded have a value. -/
theorem exists_read_iff : (∃ p, read lines = .ok p) ↔
    ∀ k, ∀ l ∈ heeded k (ofLines lines), ∃ d, l.value = .ok d := by
  have hcollect : (∃ p, read lines = .ok p) ↔ ∃ ds, collect lines = .ok ds := by
    simp only [read, map_eq_ok_iff]
    exact ⟨fun ⟨_, ds, hds, _⟩ ↦ ⟨ds, hds⟩, fun ⟨ds, hds⟩ ↦ ⟨_, ds, hds, rfl⟩⟩
  rw [hcollect, collect_eq_mapM, exists_mapM_eq_ok_iff]
  constructor
  · intro h k l hl
    rw [← filter_allHeeded] at hl
    exact h l (List.mem_filter.1 hl).1
  · intro h l hl
    exact h l.setting l (mem_allHeeded.1 hl)

/-- **A presentation that was read** holds for each setting the value of the last line that is
heeded. -/
theorem get?_of_read (h : read lines = .ok p) (k : Setting) :
    p.get? k = (heeded k (ofLines lines)).getLast?.bind (·.value.toOption) := by
  obtain ⟨ds, hds, rfl⟩ := map_eq_ok_iff.1 h
  rw [collect_eq_mapM, mapM_eq_ok_iff] at hds
  have hclaims := forall₂_filter_setting hds k
  rw [filter_allHeeded] at hclaims
  rw [get?_ofDirectives, getLast?_of_forall₂ hclaims]
  intro hk
  rw [← hclaims.length_eq]
  exact length_heeded_le hk

end Presentation

end ErDiagram
