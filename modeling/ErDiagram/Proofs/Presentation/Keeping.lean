import ErDiagram.Proofs.Directive.Keeping
import ErDiagram.Proofs.Presentation.Heeded

/-!
# What is kept of a presentation

A presentation holds at most one directive for each setting (`Presentation.mem_directives_iff`,
`Presentation.nodup_map_setting_directives`), and its directives are written and read one by one.
So what is read for a setting depends on what was held for that setting and on nothing else
(`Presentation.exists_kept`): no name and no color gets into the place of another value.

Each directive is written on its own and read on its own (`ErDiagram.Proofs.Directive.Keeping`).
What has to be added is that they do not get in each other's way: each is for another setting, what
it is read as is for the same setting, and so what is read for a setting can only come from the one
directive that was written for it.
-/

set_option autoImplicit false

namespace ErDiagram

open Text

namespace Presentation

open Directive

variable {p q : Presentation} {tables : List String} {ds : List Directive} {d e : Directive}
  {k : Setting}

/-! ## One directive for each setting

The directives of a presentation are the values of `Presentation.get?`, one for each setting that
has one; a presentation made from directives for different settings holds these and nothing else. -/

theorem mem_placings {order : List String} {t : String} {q : TablePosition} :
    position t q ∈ p.placings order ↔ t ∈ order ∧ p.positions.get? t = some q := by
  rw [placings, List.mem_filterMap]
  constructor
  · rintro ⟨t, ht, h⟩
    obtain ⟨q, hq, h⟩ := Option.map_eq_some_iff.1 h
    cases h
    exact ⟨ht, hq⟩
  · rintro ⟨ht, hq⟩
    exact ⟨t, ht, by rw [hq, Option.map_some]⟩

/-- The directives of a presentation are what it holds for their settings. -/
theorem mem_directives_iff : d ∈ p.directives tables ↔ p.get? d.setting = some d := by
  have hrole (role : ColorRole) : role ∈ ColorRole.all := by cases role <;> decide
  have hget (t : String) (q : TablePosition) (h : p.positions.get? t = some q) :
      t ∈ p.positions.order tables :=
    Positions.mem_order.2 (List.mem_map_of_mem (Positions.get?_eq_some_iff.1 h))
  rw [directives_eq, List.mem_append]
  cases d with
  | view | zoom => simp [scalars, placings, get?, Directive.setting]
  | color => simp [scalars, placings, get?, Directive.setting, hrole]
  | position t q =>
    rw [mem_placings, and_iff_right_of_imp (hget t q)]
    simp [scalars, get?, Directive.setting]

theorem nodup_map_setting_directives (p : Presentation) (tables : List String) :
    ((p.directives tables).map Directive.setting).Nodup := by
  have hscalars : (p.scalars.map Directive.setting).Nodup := by
    have hslots : (p.scalars.map Directive.slot).Nodup :=
      (by decide : Slot.scalars.Nodup).sublist p.map_slot_scalars_sublist
    refine List.pairwise_map.2 ((List.pairwise_map.1 hslots).imp fun {d e} hne hsetting ↦ hne ?_)
    rw [← d.slot_setting, hsetting, e.slot_setting]
  have hplacings : (p.placings (p.positions.order tables)).Pairwise
      fun d e ↦ d.setting ≠ e.setting := by
    refine List.pairwise_filterMap.2 ((nodup_eraseDups _).imp ?_)
    intro t t' ht d hd e he
    obtain ⟨q, -, rfl⟩ := Option.map_eq_some_iff.1 hd
    obtain ⟨q', -, rfl⟩ := Option.map_eq_some_iff.1 he
    exact fun h ↦ ht (Setting.position.inj h)
  rw [directives_eq, List.map_append, List.nodup_append]
  refine ⟨hscalars, List.pairwise_map.2 hplacings, ?_⟩
  -- a scalar and a position differ in their slots
  intro k hk j hj hkj
  obtain ⟨d, hd, rfl⟩ := List.mem_map.1 hk
  obtain ⟨e, he, rfl⟩ := List.mem_map.1 hj
  have hslot := p.map_slot_scalars_sublist.subset (List.mem_map_of_mem hd)
  rw [← d.slot_setting, hkj, e.slot_setting, slot_of_mem_placings he] at hslot
  exact absurd hslot (by decide)

/-- What a presentation holds for a setting is the directive for it. -/
theorem get?_ofDirectives_eq_some_iff (h : (ds.map Directive.setting).Nodup) :
    (ofDirectives ds).get? k = some d ↔ d ∈ ds ∧ d.setting = k := by
  have hlength : (ds.filter (·.setting = k)).length ≤ 1 := by
    have hsettings : (ds.filter (·.setting = k)).map Directive.setting =
        List.replicate (ds.filter (·.setting = k)).length k :=
      List.map_eq_replicate_iff.2 fun d hd ↦ by simpa using (List.mem_filter.1 hd).2
    rw [← List.nodup_replicate (a := k), ← hsettings]
    exact h.sublist (List.filter_sublist.map _)
  have hmem : d ∈ ds.filter (·.setting = k) ↔ d ∈ ds ∧ d.setting = k := by simp
  rw [get?_ofDirectives fun _ ↦ hlength, ← hmem]
  generalize ds.filter (·.setting = k) = es at hlength
  rcases es with _ | ⟨e, _ | ⟨f, es⟩⟩
  · simp
  · simp [eq_comm]
  · simp at hlength

theorem setting_of_get? (h : p.get? k = some d) : d.setting = k := by
  cases k with
  | view | zoom | color | position =>
    obtain ⟨a, -, rfl⟩ := Option.map_eq_some_iff.1 h
    rfl

/-! ## Writing and reading

A directive that no line can say leaves nothing behind; the others are read in the order in which
they are written. -/

/-- What is read are the directives that are kept. -/
theorem mem_filterMap_iff {os : List (Option Directive)}
    (h : List.Forall₂ (fun d o ↦ ∀ e, o = some e ↔ d.KeptAs e) ds os) :
    e ∈ os.filterMap id ↔ ∃ d ∈ ds, d.KeptAs e := by
  induction h with
  | nil => simp
  | @cons d o ds os hd _ ih =>
    rw [List.exists_mem_cons_iff, ← ih, ← hd e]
    cases o with
    | none => simp
    | some f => simp [eq_comm]

/-- **What is written and read back** for a setting is what is kept of the directive for it. -/
theorem exists_kept (h : ∀ d ∈ p.directives tables, d.IsExact) : ∃ rs ds,
    (p.directives tables).mapM readableLine = .ok rs ∧
      List.Forall₂ Denotes ((rs.filterMap id).map String.toList) ds ∧
      collect ((rs.filterMap id).map String.toList) = .ok ds ∧
      ∀ k e, (ofDirectives ds).get? k = some e ↔ ∃ d, p.get? k = some d ∧ d.KeptAs e := by
  have hstep : ∀ d ∈ p.directives tables, ∀ r, d.readableLine = .ok r →
      ∃ o, (∀ e, o = some e ↔ d.KeptAs e) ∧ Answers r o := by
    intro d hd r hr
    rcases keptAs_or_none (h d hd) with ⟨line, e, hline, hdenotes, he⟩ | ⟨hnone, hkept⟩
    · obtain rfl := Except.ok.inj (hr.symm.trans hline)
      refine ⟨some e, fun f ↦ ⟨?_, fun hf ↦ congrArg some (he.unique hf)⟩, .some hdenotes⟩
      rintro ⟨⟩
      exact he
    · obtain rfl := Except.ok.inj (hr.symm.trans hnone)
      exact ⟨none, fun e ↦ iff_of_false nofun (hkept e), .none⟩
  obtain ⟨rs, hrs⟩ : ∃ rs, (p.directives tables).mapM readableLine = .ok rs := by
    refine exists_mapM_eq_ok_iff.2 fun d hd ↦ ?_
    rcases keptAs_or_none (h d hd) with ⟨line, _, hline, -⟩ | ⟨hnone, -⟩
    · exact ⟨some line, hline⟩
    · exact ⟨none, hnone⟩
  -- each directive is written as a line that says what is kept of it, or is not written
  obtain ⟨os, hos, hdenotes⟩ := exists_forall₂_of_mapM hstep hrs
  have hsetting : ∀ (d : Directive) (o : Option Directive), (∀ e, o = some e ↔ d.KeptAs e) →
      ∀ e ∈ o, e.setting = d.setting := fun d o ho e he ↦ ((ho e).1 he).setting_eq
  have hslot : ∀ (d : Directive) (o : Option Directive), (∀ e, o = some e ↔ d.KeptAs e) →
      ∀ e ∈ o, e.slot = d.slot := fun d o ho e he ↦ by
    rw [← e.slot_setting, hsetting d o ho e he, d.slot_setting]
  have hnodup : ((os.filterMap id).map Directive.setting).Nodup :=
    (p.nodup_map_setting_directives tables).sublist (map_filterMap_sublist hsetting hos)
  refine ⟨rs, _, hrs, hdenotes,
    collect_of_denotes hdenotes (bothCount_filterMap hslot hos (p.bothCount_directives tables)), ?_⟩
  intro k e
  rw [get?_ofDirectives_eq_some_iff hnodup, mem_filterMap_iff hos]
  constructor
  · rintro ⟨⟨d, hd, he⟩, rfl⟩
    rw [he.setting_eq]
    exact ⟨d, mem_directives_iff.1 hd, he⟩
  · rintro ⟨d, hd, he⟩
    obtain rfl := setting_of_get? hd
    exact ⟨⟨d, mem_directives_iff.2 hd, he⟩, he.setting_eq⟩

/-! ## One value after the other

The statement for all settings, spelled out for the view, the colors and the positions. -/

/-- There is no zoom factor, and all coordinates lose nothing when they are written. -/
structure IsExact (p : Presentation) : Prop where
  /-- There is no zoom factor. -/
  zoom : p.zoom = none
  /-- The coordinates of the view are exact. -/
  view : ∀ v ∈ p.view, v.x.IsExact ∧ v.y.IsExact
  /-- The coordinates of the tables are exact. -/
  positions : ∀ e ∈ p.positions.entries, e.2.x.IsExact ∧ e.2.y.IsExact

/-- A presentation without a zoom factor holds what is kept of another. -/
structure Keeps (p q : Presentation) : Prop where
  /-- The zoom factor is still missing. -/
  zoom : q.zoom = none
  /-- The view is the same. -/
  view : ∀ v, q.view = some v ↔ ∃ u a b, p.view = some u ∧ u.x.Is a ∧ u.y.Is b ∧
    v = ⟨.int a, .int b⟩
  /-- The colors are those that a line can set. -/
  color : ∀ role value, q.color role = some value ↔ p.color role = some value ∧ IsColor value
  /-- The positions are those of tables with a name and a color that a line can set. -/
  positions : ∀ t v, q.positions.get? t = some v ↔ ∃ u a b, p.positions.get? t = some u ∧
    isWord t.toList = true ∧ (∀ c ∈ u.tint?, DirectiveLine.IsTint c.toList) ∧
    u.x.Is a ∧ u.y.Is b ∧ v = ⟨.int a, .int b, u.tint?⟩

section Get

variable {u : Point} {z : Number} {role : ColorRole} {value t : String} {v : TablePosition}

theorem get?_view_eq_some_iff : p.get? .view = some (.view u) ↔ p.view = some u := by
  simp [get?]

theorem get?_zoom_eq_some_iff : p.get? .zoom = some (.zoom z) ↔ p.zoom = some z := by
  simp [get?]

theorem get?_color_eq_some_iff :
    p.get? (.color role) = some (.color role value) ↔ p.color role = some value := by
  simp [get?]

theorem get?_position_eq_some_iff :
    p.get? (.position t) = some (.position t v) ↔ p.positions.get? t = some v := by
  simp [get?]

end Get

theorem IsExact.of_mem_directives (h : p.IsExact) (hd : d ∈ p.directives tables) : d.IsExact := by
  have hget := mem_directives_iff.1 hd
  cases d with
  | view u => exact h.view u (get?_view_eq_some_iff.1 hget)
  | zoom z =>
    have hz := get?_zoom_eq_some_iff.1 hget
    rw [h.zoom] at hz
    cases hz
  | color => trivial
  | position t v =>
    exact h.positions (t, v) (Positions.get?_eq_some_iff.1 (get?_position_eq_some_iff.1 hget))

/-- What is kept for every setting is kept of the whole. -/
theorem keeps_of_get?
    (h : ∀ k e, q.get? k = some e ↔ ∃ d, p.get? k = some d ∧ d.KeptAs e) : p.Keeps q where
  zoom := by
    refine Option.eq_none_iff_forall_ne_some.2 fun z hz ↦ ?_
    obtain ⟨d, -, hkept⟩ := (h _ _).1 (get?_zoom_eq_some_iff.2 hz)
    cases hkept
  view v := by
    rw [← get?_view_eq_some_iff, h]
    constructor
    · rintro ⟨d, hd, hkept⟩
      cases hkept with
      | view hx hy => exact ⟨_, _, _, get?_view_eq_some_iff.1 hd, hx, hy, rfl⟩
    · rintro ⟨u, a, b, hu, hx, hy, rfl⟩
      exact ⟨_, get?_view_eq_some_iff.2 hu, .view hx hy⟩
  color role value := by
    rw [← get?_color_eq_some_iff, h]
    constructor
    · rintro ⟨d, hd, hkept⟩
      cases hkept with
      | color _ hcolor => exact ⟨get?_color_eq_some_iff.1 hd, hcolor⟩
    · rintro ⟨hvalue, hcolor⟩
      exact ⟨_, get?_color_eq_some_iff.2 hvalue, .color role hcolor⟩
  positions t v := by
    rw [← get?_position_eq_some_iff, h]
    constructor
    · rintro ⟨d, hd, hkept⟩
      cases hkept with
      | position ht htint hx hy =>
        exact ⟨_, _, _, get?_position_eq_some_iff.1 hd, ht, htint, hx, hy, rfl⟩
    · rintro ⟨u, a, b, hu, ht, htint, hx, hy, rfl⟩
      exact ⟨_, get?_position_eq_some_iff.2 hu, .position ht htint hx hy⟩

end Presentation

end ErDiagram
