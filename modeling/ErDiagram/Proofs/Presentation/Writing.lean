import ErDiagram.Proofs.Directive.Readable
import ErDiagram.Proofs.Presentation.Positions

/-!
# The directives of a presentation and their lines

A presentation is written as the lines of its directives.  All of its directives count
(`Presentation.bothCount_directives`), and those of a presentation that was read from a text are
sound (`Presentation.sound_of_read`).  Their lines are written one by one and so they are read
(`Directive.exists_forall₂_of_mapM`): every line denotes a directive, and whatever the presentation
is, they can all be collected again (`Directive.exists_collect`).

That the lines of a presentation can be collected does not depend on where it comes from, as a line
is written only if it can be read.  Presentations that come from a text are distinguished by what is
read, and for these more can be said (`ErDiagram.Proofs.Presentation.Rereading`).
-/

set_option autoImplicit false

namespace ErDiagram

open Text

/-! ## Directives of a presentation

The slots with one value come first, each at most once and in a fixed order, and the positions
behind them; so there are no two directives of which the second would not count. -/

namespace Presentation

variable {p : Presentation} {tables : List String} {d : Directive}

/-- The directives for all but the positions of tables. -/
def scalars (p : Presentation) : List Directive :=
  (p.view.map Directive.view).toList ++ (p.zoom.map Directive.zoom).toList ++
    ColorRole.all.filterMap fun role ↦ (p.color role).map (Directive.color role)

/-- The directives for the positions of the given tables. -/
def placings (p : Presentation) (order : List String) : List Directive :=
  order.filterMap fun t ↦ (p.positions.get? t).map (Directive.position t)

theorem directives_eq (p : Presentation) (tables : List String) :
    p.directives tables = p.scalars ++ p.placings (p.positions.order tables) := rfl

theorem map_slot_scalars_sublist (p : Presentation) :
    (p.scalars.map Directive.slot).Sublist Slot.scalars := by
  have hview : ((p.view.map Directive.view).toList.map Directive.slot).Sublist [.view] := by
    cases p.view <;> simp [Directive.slot]
  have hzoom : ((p.zoom.map Directive.zoom).toList.map Directive.slot).Sublist [.zoom] := by
    cases p.zoom <;> simp [Directive.slot]
  have hcolors (roles : List ColorRole) : ((roles.filterMap fun role ↦
      (p.color role).map (Directive.color role)).map Directive.slot).Sublist
        (roles.map Slot.color) := by
    induction roles with
    | nil => exact .slnil
    | cons role roles ih =>
      rw [List.filterMap_cons]
      cases p.color role with
      | none => exact ih.cons _
      | some => exact ih.cons_cons _
  rw [scalars, List.map_append, List.map_append]
  exact (hview.append hzoom).append (hcolors ColorRole.all)

theorem slot_of_mem_placings {order : List String} (h : d ∈ p.placings order) :
    d.slot = .position := by
  obtain ⟨t, _, ht⟩ := List.mem_filterMap.1 h
  obtain ⟨q, _, rfl⟩ := Option.map_eq_some_iff.1 ht
  rfl

/-- All directives of a presentation count. -/
theorem bothCount_directives (p : Presentation) (tables : List String) :
    (p.directives tables).Pairwise Directive.BothCount := by
  rw [directives_eq, List.pairwise_append]
  refine ⟨?_, ?_, fun d _ e he ↦ .inl (slot_of_mem_placings he)⟩
  · have hnodup : Slot.scalars.Nodup := by decide
    have hslots := hnodup.sublist p.map_slot_scalars_sublist
    exact (List.pairwise_map.1 hslots).imp .inr
  · exact List.Pairwise.imp_of_mem (fun _ he _ ↦ .inl (slot_of_mem_placings he))
      (List.pairwise_of_forall fun _ _ ↦ trivial)

/-! ### Directives of a presentation that was read

What a presentation holds was put into it by a directive, and so its directives are some of those
that it was made from. -/

variable {ds : List Directive}

/-- A value that some directive sets belongs to one of the directives. -/
theorem mem_of_findSome? {α : Type} {f : Directive → Option α} {c : α → Directive}
    (hf : ∀ {d a}, f d = some a → d = c a) {a : α} (h : ds.findSome? f = some a) : c a ∈ ds := by
  obtain ⟨d, hd, hda⟩ := List.exists_of_findSome?_eq_some h
  exact hf hda ▸ hd

theorem color_ofDirectives (ds : List Directive) (role : ColorRole) :
    (ofDirectives ds).color role = ds.findSome? (·.colorValue? role) := by
  cases role <;> rfl

/-- The directives of a presentation that was read are among those that were read. -/
theorem mem_of_mem_directives (h : d ∈ (ofDirectives ds).directives tables) : d ∈ ds := by
  rw [directives_eq] at h
  rcases List.mem_append.1 h with h | h
  · rcases List.mem_append.1 h with h | h
    · rcases List.mem_append.1 h with h | h
      · obtain ⟨v, hv, rfl⟩ := Option.map_eq_some_iff.1 (Option.mem_toList.1 h)
        exact mem_of_findSome? (fun {d _} h ↦ by cases d <;> cases h; rfl) hv
      · obtain ⟨z, hz, rfl⟩ := Option.map_eq_some_iff.1 (Option.mem_toList.1 h)
        exact mem_of_findSome? (fun {d _} h ↦ by cases d <;> cases h; rfl) hz
    · obtain ⟨role, _, hrole⟩ := List.mem_filterMap.1 h
      obtain ⟨value, hvalue, rfl⟩ := Option.map_eq_some_iff.1 hrole
      rw [color_ofDirectives] at hvalue
      refine mem_of_findSome? (fun {d _} h ↦ ?_) hvalue
      cases d with
      | view | zoom | position => cases h
      | color role' value' =>
        rw [Directive.colorValue?] at h
        split at h
        · next heq => rw [heq, Option.some.inj h]
        · cases h
  · obtain ⟨t, _, ht⟩ := List.mem_filterMap.1 h
    obtain ⟨q, hq, rfl⟩ := Option.map_eq_some_iff.1 ht
    obtain ⟨d, hd, hdq⟩ :=
      List.mem_filterMap.1 (Positions.mem_of_mem_ofList (Positions.mem_of_get? hq))
    cases d with
    | view | zoom | color => cases hdq
    | position => cases hdq; exact hd

/-- **The directives of a presentation that was read from a text are sound.** -/
theorem sound_of_read {lines : List (List Char)} (h : read lines = .ok p) :
    ∀ d ∈ p.directives tables, d.Sound := by
  obtain ⟨ds, hds, rfl⟩ := map_eq_ok_iff.1 h
  intro d hd
  exact Directive.sound_of_collect hds d (mem_of_mem_directives hd)

end Presentation

/-! ## Lines of directives

Reading goes along with writing, directive by directive.  The relation between a directive and what
it is read as is left open (`R`): it is instantiated once for presentations in general and once for
those that come from a text. -/

namespace Directive

variable {ds : List Directive} {rs : List (Option String)} {os : List (Option Directive)}
  {R : Directive → Option Directive → Prop}

/-- A line that is written, or none, denotes a directive, or none. -/
def Answers (r : Option String) (o : Option Directive) : Prop :=
  Option.Rel (fun line d ↦ Denotes line.toList d) r o

/-- Lines are written for directives one by one, and so they are read. -/
theorem exists_forall₂_of_mapM
    (hstep : ∀ d ∈ ds, ∀ r, d.readableLine = .ok r → ∃ o, R d o ∧ Answers r o)
    (h : ds.mapM readableLine = .ok rs) : ∃ os, List.Forall₂ R ds os ∧
      List.Forall₂ Denotes ((rs.filterMap id).map String.toList) (os.filterMap id) := by
  induction mapM_eq_ok_iff.1 h with
  | nil => exact ⟨[], .nil, .nil⟩
  | @cons d r ds rs hr hrs ih =>
    obtain ⟨hd, hds⟩ := List.forall_mem_cons.1 hstep
    obtain ⟨o, ho, hanswer⟩ := hd r hr
    obtain ⟨os, hos, hdenotes⟩ := ih hds (mapM_eq_ok_iff.2 hrs)
    refine ⟨o :: os, .cons ho hos, ?_⟩
    cases hanswer with
    | none => exact hdenotes
    | some hline => exact .cons hline hdenotes

/-- What directives keep when they are read stands in the same order. -/
theorem map_filterMap_sublist {α : Type} {g : Directive → α}
    (hg : ∀ d o, R d o → ∀ e ∈ o, g e = g d) (h : List.Forall₂ R ds os) :
    ((os.filterMap id).map g).Sublist (ds.map g) := by
  induction h with
  | nil => exact .slnil
  | @cons d o ds os hd _ ih =>
    cases o with
    | none => exact ih.cons _
    | some e =>
      have hkept : ((some e :: os).filterMap id).map g = g d :: (os.filterMap id).map g := by
        rw [← hg d _ hd e rfl]
        rfl
      rw [hkept]
      exact ih.cons_cons _

/-- Directives that are read keep their slots, so they count as those that were written do. -/
theorem bothCount_filterMap (hslot : ∀ d o, R d o → ∀ e ∈ o, e.slot = d.slot)
    (h : List.Forall₂ R ds os) (hcount : ds.Pairwise BothCount) :
    (os.filterMap id).Pairwise BothCount := by
  have hpairs : (ds.map slot).Pairwise fun s t ↦ t = .position ∨ s ≠ t :=
    List.pairwise_map.2 hcount
  have hkept := List.pairwise_map.1 (hpairs.sublist (map_filterMap_sublist hslot h))
  exact hkept

/-- Lines that denote directives are remarks. -/
theorem isRemark_of_denotes {lines : List (List Char)} (h : List.Forall₂ Denotes lines ds) :
    ∀ l ∈ lines, IsRemark l := by
  induction h with
  | nil => exact List.forall_mem_nil _
  | cons hd _ ih =>
    obtain ⟨l, rfl, hwf, -⟩ := hd
    exact List.forall_mem_cons.2 ⟨DirectiveLine.isRemark_text hwf, ih⟩

/-- A line answers for a directive of the slot that it was written for. -/
theorem exists_answers {d : Directive} {r : Option String} (h : d.readableLine = .ok r) :
    ∃ o, (∀ e ∈ o, e.slot = d.slot) ∧ Answers r o := by
  cases r with
  | none => exact ⟨none, by simp, .none⟩
  | some line =>
    obtain ⟨e, he, hsetting⟩ := exists_denotes_of_readableLine h
    have hslot : e.slot = d.slot := by
      rw [← e.slot_setting, hsetting, d.slot_setting]
    exact ⟨some e, by simpa using hslot, .some he⟩

/-- **The lines of any presentation can be collected.** -/
theorem exists_collect {p : Presentation} {tables : List String}
    (h : (p.directives tables).mapM readableLine = .ok rs) :
    ∃ ds, List.Forall₂ Denotes ((rs.filterMap id).map String.toList) ds ∧
      collect ((rs.filterMap id).map String.toList) = .ok ds := by
  obtain ⟨os, hos, hdenotes⟩ := exists_forall₂_of_mapM (fun _ _ _ ↦ exists_answers) h
  have hcount := bothCount_filterMap (fun _ _ h ↦ h) hos (p.bothCount_directives tables)
  exact ⟨_, hdenotes, collect_of_denotes hdenotes hcount⟩

end Directive

end ErDiagram
