import ErDiagram.Proofs.Presentation.Heeded

/-!
# Lines of a presentation behind others

Of each slot that holds one value the first line counts, of each table the last position.  So lines
that are read behind others say what the others leave open, and their positions are put over the
others' positions (`Presentation.merge`).  This is all they do: if both can be read on their own,
they can be read together, and what is read is the one presentation merged with the other
(`Presentation.read_append`).

Nothing is said of the tables here, nor of where in a text the lines stand; for lines of a whole
diagram that are set behind others see `ErDiagram.Proofs.Diagram.Concatenation`.
-/

set_option autoImplicit false

namespace ErDiagram

/-! ## A map put over another

Putting several entries is the same as putting the map of these entries.  A map is determined by the
order of its names together with the position of each name, so for an equation between two maps both
are worked out. -/

namespace Positions

variable {ps qs : Positions} {es : List (String × TablePosition)}

/-- A map with the entries of another put into it, one after the other. -/
def update (ps qs : Positions) : Positions := qs.entries.foldl (fun ps e ↦ ps.put e.1 e.2) ps

theorem names_put (ps : Positions) (name : String) (p : TablePosition) :
    (ps.put name p).names = if name ∈ ps.names then ps.names else ps.names ++ [name] :=
  map_fst_putEntry name p ps.entries

/-- The entries of a map are its names in their order, each with its position. -/
theorem inOrder_names (ps : Positions) : ps.inOrder ps.names = ps.entries := by
  have hget : ∀ e ∈ ps.entries, (ps.get? e.1).map (Prod.mk e.1) = some e := by
    intro e he
    rw [get?_eq_some_iff.2 he, Option.map_some]
  rw [inOrder, names, List.filterMap_map]
  exact (List.filterMap_congr hget).trans List.filterMap_some

/-- Maps with the same names in the same order, each with the same position, are equal. -/
theorem ext_get? (hnames : ps.names = qs.names) (hget : ∀ t, ps.get? t = qs.get? t) : ps = qs := by
  have hentries : ps.entries = qs.entries := by
    rw [← inOrder_names ps, ← inOrder_names qs, hnames]
    simp only [inOrder, hget]
  obtain ⟨es, _⟩ := ps
  obtain ⟨fs, _⟩ := qs
  obtain rfl : es = fs := hentries
  rfl

theorem get?_foldl_put (ps : Positions) (es : List (String × TablePosition)) (t : String) :
    (es.foldl (fun ps e ↦ ps.put e.1 e.2) ps).get? t = ((ofList es).get? t).or (ps.get? t) := by
  induction es using List.reverseRecOn with
  | nil => rfl
  | append_singleton es e ih =>
    rw [List.foldl_append, List.foldl_cons, List.foldl_nil, ofList_concat, get?_put, get?_put, ih]
    split <;> rfl

theorem names_foldl_put (ps : Positions) (es : List (String × TablePosition)) :
    (es.foldl (fun ps e ↦ ps.put e.1 e.2) ps).names =
      ps.names ++ (ofList es).names.filter (· ∉ ps.names) := by
  induction es using List.reverseRecOn with
  | nil => exact (List.append_nil _).symm
  | append_singleton es e ih =>
    rw [List.foldl_append, List.foldl_cons, List.foldl_nil, ofList_concat, names_put, names_put, ih]
    by_cases hps : e.1 ∈ ps.names <;> by_cases hes : e.1 ∈ (ofList es).names <;> simp [hps, hes]

theorem ofList_entries (ps : Positions) : ofList ps.entries = ps := by
  have hentries := entries_ofList ps.nodup
  obtain ⟨es, _⟩ := ps
  generalize ofList es = qs at hentries
  obtain ⟨fs, _⟩ := qs
  obtain rfl : fs = es := hentries
  rfl

/-- **A map put over another** gives each name the position of the upper map, if it has one
there. -/
theorem get?_update (ps qs : Positions) (t : String) :
    (ps.update qs).get? t = (qs.get? t).or (ps.get? t) := by
  rw [update, get?_foldl_put, ofList_entries]

/-- The names of the lower map come first. -/
theorem names_update (ps qs : Positions) :
    (ps.update qs).names = ps.names ++ qs.names.filter (· ∉ ps.names) := by
  rw [update, names_foldl_put, ofList_entries]

/-- It is the same whether entries are put one after the other, or the map of them at once. -/
theorem ofList_append (es fs : List (String × TablePosition)) :
    ofList (es ++ fs) = (ofList es).update (ofList fs) := by
  have hfold : ofList (es ++ fs) = fs.foldl (fun ps e ↦ ps.put e.1 e.2) (ofList es) :=
    List.foldl_append
  rw [hfold]
  refine ext_get? ?_ fun t ↦ ?_
  · rw [names_foldl_put, names_update]
  · rw [get?_foldl_put, get?_update]

end Positions

/-! ## Directives behind others

Behind other directives those for a slot that is set already do not count any more; all others are
found as they would be found in lines of their own. -/

namespace Directive

open DirectiveLine

variable {ds es : List Directive} {ls ms : List (List Char)}

/-- The directives of lines behind others are those that still count there. -/
theorem collect_append (hds : collect ls = .ok ds) (hes : collect ms = .ok es) :
    collect (ls ++ ms) = .ok (ds ++ es.filter (counts ds ·.slot)) := by
  have hcounts : ((allHeeded (ofLines ms)).filter (counts ds ·.slot)).mapM value =
      .ok (es.filter (counts ds ·.slot)) := by
    rw [collect_eq_mapM, mapM_eq_ok_iff] at hes
    have hslot : ∀ ⦃l : DirectiveLine⦄ ⦃d : Directive⦄, l.value = .ok d →
        (counts ds l.slot = true ↔ counts ds d.slot = true) := fun l d hd ↦ by
      rw [slot_of_value hd]
    exact mapM_eq_ok_iff.2 (List.rel_filter hslot hes)
  have hds : ls.foldlM collectLine [] = .ok ds := hds
  rw [collect, List.foldlM_append, hds]
  show ms.foldlM collectLine ds = _
  rw [foldlM_collectLine, hcounts]
  rfl

/-- What is set first is set by the directives in front, or else by those behind them. -/
theorem findSome?_append_counts {α : Type} {f : Directive → Option α} {s : Slot}
    (hf : ∀ d, (f d).isSome = true ↔ d.slot = s) (ds es : List Directive) :
    (ds ++ es.filter (counts ds ·.slot)).findSome? f = (ds.findSome? f).or (es.findSome? f) := by
  rw [List.findSome?_append]
  cases hfound : ds.findSome? f with
  | some a => rfl
  | none =>
    -- the first list says nothing here, so all that the second says of this slot counts
    have hcounts : counts ds s = true := by
      rw [counts, Bool.or_eq_true, List.all_eq_true]
      refine .inr fun d hd ↦ decide_eq_true fun hslot ↦ ?_
      have hsome := (hf d).2 hslot
      rw [List.findSome?_eq_none_iff.1 hfound d hd] at hsome
      cases hsome
    rw [Option.none_or, Option.none_or]
    induction es with
    | nil => rfl
    | cons e es ih =>
      rw [List.filter_cons, List.findSome?_cons, ← ih]
      split
      · exact List.findSome?_cons
      · next hskip =>
        have hnone : f e = none := by
          refine Option.not_isSome_iff_eq_none.1 fun hsome ↦ hskip ?_
          rw [(hf e).1 hsome]
          exact hcounts
        rw [hnone]

/-- A position counts behind any directives. -/
theorem filterMap_positionValue?_counts (ds es : List Directive) :
    (es.filter (counts ds ·.slot)).filterMap (·.positionValue?) =
      es.filterMap (·.positionValue?) := by
  rw [List.filterMap_filter]
  refine List.filterMap_congr fun e _ ↦ ?_
  cases e with
  | view | zoom | color => exact ite_self none
  | position => rfl

end Directive

/-! ## A presentation put over another

The values of the slots that hold one are taken from the first presentation that has one, the
positions from the second. -/

namespace Presentation

open Directive

variable {p q : Presentation} {ls ms : List (List Char)}

/-- What one presentation sets, and what another sets where the first sets nothing, but for
positions: those of the second are put over those of the first. -/
def merge (p q : Presentation) : Presentation where
  view := p.view.or q.view
  zoom := p.zoom.or q.zoom
  textBackground := p.textBackground.or q.textBackground
  text := p.text.or q.text
  diagramBackground := p.diagramBackground.or q.diagramBackground
  diagramText := p.diagramText.or q.diagramText
  tableBackground := p.tableBackground.or q.tableBackground
  tableText := p.tableText.or q.tableText
  positions := p.positions.update q.positions

theorem ofDirectives_append (ds es : List Directive) :
    ofDirectives (ds ++ es.filter (counts ds ·.slot)) =
      (ofDirectives ds).merge (ofDirectives es) := by
  have hview (d : Directive) : d.viewValue?.isSome = true ↔ d.slot = .view := by
    cases d <;> simp [viewValue?, slot]
  have hzoom (d : Directive) : d.zoomValue?.isSome = true ↔ d.slot = .zoom := by
    cases d <;> simp [zoomValue?, slot]
  have hcolor (role : ColorRole) (d : Directive) :
      (d.colorValue? role).isSome = true ↔ d.slot = .color role := by
    cases d <;> simp [colorValue?, slot]
  have hcolors (role : ColorRole) := findSome?_append_counts (hcolor role) ds es
  have hpositions : Positions.ofList
      ((ds ++ es.filter (counts ds ·.slot)).filterMap (·.positionValue?)) =
      (Positions.ofList (ds.filterMap (·.positionValue?))).update
        (Positions.ofList (es.filterMap (·.positionValue?))) := by
    rw [List.filterMap_append, filterMap_positionValue?_counts, Positions.ofList_append]
  rw [merge, ofDirectives, Presentation.mk.injEq]
  exact ⟨findSome?_append_counts hview ds es,
    findSome?_append_counts hzoom ds es, hcolors .textBackground, hcolors .text,
    hcolors .diagramBackground, hcolors .diagramText, hcolors .tableBackground,
    hcolors .tableText, hpositions⟩

/-- **Lines that are read behind others** say what the others leave open, and move tables. -/
theorem read_append (hp : read ls = .ok p) (hq : read ms = .ok q) :
    read (ls ++ ms) = .ok (p.merge q) := by
  obtain ⟨ds, hds, rfl⟩ := map_eq_ok_iff.1 hp
  obtain ⟨es, hes, rfl⟩ := map_eq_ok_iff.1 hq
  rw [read, collect_append hds hes, ← ofDirectives_append]
  rfl

end Presentation

end ErDiagram
