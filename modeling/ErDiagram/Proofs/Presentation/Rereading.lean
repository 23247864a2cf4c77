import ErDiagram.Proofs.Presentation.Writing

/-!
# Reading a presentation back

The lines of a presentation that was read from a text are read back as a presentation that is the
same just in case it is `Presentation.Restorable` (`Presentation.exists_same_iff`): the zoom factor
is no infinity, for which there is no line, and the coordinates of the tables need no more than
fifty-three bits, since they are rounded when they are written.

Being the same is meant in the sense of `Presentation.same`, which disregards the order in which the
positions of tables are kept: they are written in the order of the tables and may have been read in
another.

The proof goes through the list of directives.  Each of them is read back as it was, or changed in
one of two known ways, or not at all (`Directive.Reread`); and a presentation made from the
directives that are read differs from the first one accordingly.
-/

set_option autoImplicit false

namespace ErDiagram

/-! ## Directives that are read back

An infinite zoom factor has no line, and a position may be rounded.  For positions it is left open
what they become, and only said when that is what they were. -/

/-- A number is an infinity. -/
def Number.isInfinite : Number → Bool
  | .double (.infinite _) => true
  | _ => false

/-- What a directive is when its line is read, or nothing if there is no line. -/
inductive Directive.Reread : Directive → Option Directive → Prop
  | view (p : Point) : Reread (view p) (some (view p))
  | zoom {factor : Number} (h : factor.isInfinite = false) :
      Reread (zoom factor) (some (zoom factor))
  | infinite {factor : Number} (h : factor.isInfinite = true) : Reread (zoom factor) none
  | color (role : ColorRole) (value : String) :
      Reread (color role value) (some (color role value))
  | position {table : String} {p q : TablePosition} (h : q = p ↔ p.Representable) :
      Reread (position table p) (some (position table q))

namespace Directive

theorem Reread.slot_eq {d : Directive} {o : Option Directive} (h : Reread d o) :
    ∀ e ∈ o, e.slot = d.slot := by
  cases h <;> simp [slot]

theorem exists_reread {d : Directive} (h : d.Sound) {r : Option String}
    (hr : d.readableLine = .ok r) : ∃ o, Reread d o ∧ Answers r o := by
  cases d with
  | view p =>
    obtain ⟨line, rfl, hline⟩ := rereads_view h hr
    exact ⟨_, .view p, .some hline⟩
  | zoom factor =>
    rcases h with h | rfl
    · obtain ⟨line, rfl, hline⟩ := rereads_zoom h hr
      obtain ⟨m, _, rfl, _⟩ := h
      exact ⟨_, .zoom rfl, .some hline⟩
    · rw [readableLine_zoom_infinite] at hr
      obtain rfl := Except.ok.inj hr
      exact ⟨_, .infinite rfl, .none⟩
  | color role value =>
    obtain ⟨line, rfl, hline⟩ := rereads_color h hr
    exact ⟨_, .color role value, .some hline⟩
  | position table p =>
    obtain ⟨line, q, rfl, hline, hq⟩ := rereads_position h hr
    exact ⟨_, .position hq, .some hline⟩

variable {ds : List Directive} {os : List (Option Directive)}

/-- A value that each directive sets when it is read back is set by all of them as well. -/
theorem findSome?_reread {α : Type} {f g : Directive → Option α}
    (hfg : ∀ {d o}, Reread d o → o.bind f = g d) (h : List.Forall₂ Reread ds os) :
    (os.filterMap id).findSome? f = ds.findSome? g := by
  induction h with
  | nil => rfl
  | @cons d o ds os hd _ ih =>
    rw [List.findSome?_cons, ← hfg hd, ← ih]
    cases o with
    | none => rfl
    | some e => exact List.findSome?_cons

/-- A position when it is read back. -/
def PlacedAgain (e f : String × TablePosition) : Prop :=
  f.1 = e.1 ∧ (f.2 = e.2 ↔ e.2.Representable)

theorem positions_reread (h : List.Forall₂ Reread ds os) :
    List.Forall₂ PlacedAgain (ds.filterMap (·.positionValue?))
      ((os.filterMap id).filterMap (·.positionValue?)) := by
  induction h with
  | nil => exact .nil
  | cons hd _ ih =>
    cases hd with
    | view | zoom | infinite | color => exact ih
    | position hq => exact .cons ⟨rfl, hq⟩ ih

end Directive

/-! ## Presentations that are read back

All values but the zoom factor and the positions are as they were.  The positions are compared name
by name: every name is there again, and the position is the same just in case it loses nothing. -/

/-- A presentation is found again in its lines. -/
structure Presentation.Restorable (p : Presentation) : Prop where
  /-- The zoom factor is no infinity. -/
  zoom : ∀ z ∈ p.zoom, z.isInfinite = false
  /-- The coordinates of the tables lose nothing when they are written. -/
  positions : ∀ e ∈ p.positions.entries, e.2.Representable

namespace Presentation

open Directive

variable {p q : Presentation} {tables : List String} {os : List (Option Directive)}

theorem findSome?_filterMap {α β γ : Type} (f : β → Option γ) (g : α → Option β) (l : List α) :
    (l.filterMap g).findSome? f = l.findSome? fun a ↦ (g a).bind f := by
  induction l with
  | nil => rfl
  | cons a l ih =>
    rw [List.filterMap_cons, List.findSome?_cons, ← ih]
    cases g a with
    | none => rfl
    | some b => exact List.findSome?_cons

/-! ### Values that are set

A presentation lists one directive for each value that it has, and the first directive for a slot
sets its value again.  So one lemma about the first directive with some property gives all values
but the positions. -/

/-- What the directives of a presentation set. -/
theorem findSome?_directives {α : Type} {f : Directive → Option α}
    (hf : ∀ t q, f (.position t q) = none) : (p.directives tables).findSome? f =
      ((p.view.bind (f <| .view ·)).or (p.zoom.bind (f <| .zoom ·))).or
        (ColorRole.all.findSome? fun role ↦ (p.color role).bind (f <| .color role ·)) := by
  have hview : (p.view.map Directive.view).toList.findSome? f = p.view.bind (f <| .view ·) := by
    cases p.view with
    | none => rfl
    | some v => simp
  have hzoom : (p.zoom.map Directive.zoom).toList.findSome? f = p.zoom.bind (f <| .zoom ·) := by
    cases p.zoom with
    | none => rfl
    | some z => simp
  have hplacings : (p.placings (p.positions.order tables)).findSome? f = none := by
    rw [placings, findSome?_filterMap, List.findSome?_eq_none_iff]
    intro t _
    rw [Option.bind_map]
    cases p.positions.get? t with
    | none => rfl
    | some q => exact hf t q
  have hcolors : (ColorRole.all.filterMap fun role ↦ (p.color role).map (.color role)).findSome? f =
      ColorRole.all.findSome? fun role ↦ (p.color role).bind (f <| .color role ·) := by
    rw [findSome?_filterMap]
    exact congrArg (List.findSome? · ColorRole.all) (funext fun _ ↦ Option.bind_map)
  rw [directives_eq, List.findSome?_append, hplacings, Option.or_none, scalars,
    List.findSome?_append, List.findSome?_append, hview, hzoom, hcolors]

theorem findSome?_colorValue? (role : ColorRole) (roles : List ColorRole) :
    (roles.findSome? fun r ↦ (p.color r).bind fun v ↦ (Directive.color r v).colorValue? role) =
      if role ∈ roles then p.color role else none := by
  induction roles with
  | nil => rfl
  | cons r roles ih =>
    rw [List.findSome?_cons, ih]
    by_cases hr : r = role
    · subst hr
      cases p.color r <;> simp [colorValue?]
    · have hne : role ≠ r := fun h ↦ hr h.symm
      simp [colorValue?, hr, hne]

variable (h : List.Forall₂ Reread (p.directives tables) os)

include h

theorem view_reread : (ofDirectives (os.filterMap id)).view = p.view := by
  have hkeep {d : Directive} {o : Option Directive} (h : Reread d o) :
      o.bind (·.viewValue?) = d.viewValue? := by
    cases h <;> rfl
  refine (findSome?_reread hkeep h).trans ?_
  rw [findSome?_directives fun _ _ ↦ rfl]
  simp [viewValue?, ColorRole.all]

theorem zoom_reread :
    (ofDirectives (os.filterMap id)).zoom = p.zoom.filter (!·.isInfinite) := by
  have hkeep {d : Directive} {o : Option Directive} (h : Reread d o) :
      o.bind (·.zoomValue?) = d.zoomValue?.filter (!·.isInfinite) := by
    cases h with
    | zoom h | infinite h => simp [zoomValue?, Option.filter_some, h]
    | view | color | position => rfl
  refine (findSome?_reread hkeep h).trans ?_
  rw [findSome?_directives fun _ _ ↦ rfl]
  cases p.zoom <;> simp [zoomValue?, ColorRole.all]

theorem color_reread (role : ColorRole) :
    (ofDirectives (os.filterMap id)).color role = p.color role := by
  have hkeep {d : Directive} {o : Option Directive} (h : Reread d o) :
      o.bind (·.colorValue? role) = d.colorValue? role := by
    cases h <;> rfl
  rw [color_ofDirectives]
  refine (findSome?_reread hkeep h).trans ?_
  rw [findSome?_directives fun _ _ ↦ rfl, findSome?_colorValue?]
  cases role <;> simp [colorValue?, ColorRole.all]

/-- All but the positions is read back as it was, but for an infinite zoom factor. -/
theorem scalars_reread : { ofDirectives (os.filterMap id) with positions := {} } =
    { p with zoom := p.zoom.filter (!·.isInfinite), positions := {} } := by
  have hview := view_reread h
  have hzoom := zoom_reread h
  have hcolor := color_reread h
  rw [Presentation.mk.injEq]
  exact ⟨hview, hzoom, hcolor .textBackground, hcolor .text, hcolor .diagramBackground,
    hcolor .diagramText, hcolor .tableBackground, hcolor .tableText, rfl⟩

omit h

/-- The positions in the directives of a presentation are its positions, in the order of tables. -/
theorem filterMap_positionValue?_directives (p : Presentation) (tables : List String) :
    (p.directives tables).filterMap (·.positionValue?) =
      p.positions.inOrder (p.positions.order tables) := by
  have hscalars : p.scalars.filterMap (·.positionValue?) = [] := by
    refine List.filterMap_eq_nil_iff.2 ?_
    intro d hd
    have hslot := p.map_slot_scalars_sublist.subset (List.mem_map_of_mem hd)
    cases d with
    | view | zoom | color => rfl
    | position => exact absurd hslot (by decide : Slot.position ∉ Slot.scalars)
  rw [directives_eq, List.filterMap_append, hscalars, List.nil_append, placings,
    List.filterMap_filterMap, Positions.inOrder]
  refine congrArg (List.filterMap · _) (funext fun t ↦ ?_)
  cases p.positions.get? t <;> rfl

end Presentation

namespace Positions

open Directive

variable {ps : Positions} {es fs : List (String × TablePosition)}

/-! ### Positions

The positions are listed by name, each once, and come back with the same names.  Two such maps are
the same if they agree at every name of the one. -/

theorem map_fst_of_placedAgain (h : List.Forall₂ PlacedAgain es fs) :
    fs.map Prod.fst = es.map Prod.fst := by
  induction h with
  | nil => rfl
  | cons he _ ih => rw [List.map_cons, List.map_cons, ih, he.1]

theorem forall_get?_iff (h : List.Forall₂ PlacedAgain es fs)
    (hes : ∀ e ∈ es, ps.get? e.1 = some e.2) :
    (∀ f ∈ fs, ps.get? f.1 = some f.2) ↔ ∀ e ∈ es, e.2.Representable := by
  induction h with
  | nil => simp
  | cons he _ ih =>
    obtain ⟨hget, hes⟩ := List.forall_mem_cons.1 hes
    rw [List.forall_mem_cons, List.forall_mem_cons, ih hes, he.1, hget, Option.some_inj, ← he.2,
      eq_comm]

/-- Positions that are read back are the same just in case they lose nothing. -/
theorem same_ofList_iff {tables : List String}
    (h : List.Forall₂ PlacedAgain (ps.inOrder (ps.order tables)) fs) :
    (ofList fs).same ps = true ↔ ∀ e ∈ ps.entries, e.2.Representable := by
  have hkeys : fs.map Prod.fst = ps.order tables :=
    (map_fst_of_placedAgain h).trans (map_fst_inOrder fun _ ↦ mem_order.1)
  have hentries : (ofList fs).entries = fs :=
    entries_ofList (by rw [hkeys]; exact nodup_eraseDups _)
  have hlength : fs.length = ps.entries.length := by
    rw [← List.length_map (f := Prod.fst), hkeys, length_order]
  have hsame : (ofList fs).same ps = true ↔ ∀ f ∈ fs, ps.get? f.1 = some f.2 := by
    simp [same, hentries, hlength]
  rw [hsame, forall_get?_iff h fun _ ↦ get?_of_mem_inOrder]
  exact forall_congr' fun e ↦ by rw [mem_inOrder]

end Positions

namespace Presentation

open Directive

variable {p : Presentation} {tables : List String}

theorem filter_zoom_eq_self_iff :
    p.zoom.filter (!·.isInfinite) = p.zoom ↔ ∀ z ∈ p.zoom, z.isInfinite = false := by
  cases p.zoom <;> simp [Option.filter_some]

theorem same_reread_iff {os : List (Option Directive)}
    (h : List.Forall₂ Reread (p.directives tables) os) :
    (ofDirectives (os.filterMap id)).same p = true ↔ p.Restorable := by
  have hpositions := positions_reread h
  rw [filterMap_positionValue?_directives] at hpositions
  have hscalars : ({ p with zoom := p.zoom.filter (!·.isInfinite), positions := {} } :
      Presentation) = { p with positions := {} } ↔ ∀ z ∈ p.zoom, z.isInfinite = false := by
    rw [Presentation.mk.injEq, filter_zoom_eq_self_iff]
    simp
  rw [same, Bool.and_eq_true, beq_iff_eq, scalars_reread h, hscalars]
  exact ⟨fun h ↦ ⟨h.1, (Positions.same_ofList_iff hpositions).1 h.2⟩,
    fun h ↦ ⟨h.1, (Positions.same_ofList_iff hpositions).2 h.2⟩⟩

/-- **The lines of a presentation with sound directives** are read back as a presentation that is
the same just in case it is restorable. -/
theorem exists_same_iff {rs : List (Option String)} (h : ∀ d ∈ p.directives tables, d.Sound)
    (hrs : (p.directives tables).mapM readableLine = .ok rs) :
    ∃ ds, List.Forall₂ Denotes ((rs.filterMap id).map String.toList) ds ∧
      collect ((rs.filterMap id).map String.toList) = .ok ds ∧
      ((ofDirectives ds).same p = true ↔ p.Restorable) := by
  obtain ⟨os, hos, hdenotes⟩ := exists_forall₂_of_mapM (fun d hd _ ↦ exists_reread (h d hd)) hrs
  have hcount := bothCount_filterMap (fun _ _ ↦ Reread.slot_eq) hos (p.bothCount_directives tables)
  exact ⟨_, hdenotes, collect_of_denotes hdenotes hcount, same_reread_iff hos⟩

end Presentation

end ErDiagram
