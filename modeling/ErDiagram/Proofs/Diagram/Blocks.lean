import ErDiagram.Proofs.FieldLine.Rereading

/-!
# The blocks of a canonical text

A canonical text consists of blocks of lines with an empty line between any two: one block for each
table, and one for the presentation (`Diagram.toList_text`).

This takes the text apart into lines and says nothing about what the lines are.  Reading a text
starts with its lines, so what has to be shown of a canonical text from here on is about lists of
lines.
-/

set_option autoImplicit false

namespace ErDiagram

open Text

/-! ## Blocks as lines

The writer joins the lines of a block by line feeds and the blocks by two.  Seen from the reader
each line ends with a line feed, and between two blocks there is one more line, which is empty. -/

/-- Blocks of lines, one below the other, with an empty line between any two. -/
def separated (bs : List (List (List Char))) : List (List Char) := [[]].intercalate bs

theorem separated_singleton (b : List (List Char)) : separated [b] = b := by
  simp [separated, List.intercalate]

theorem separated_cons_cons (b c : List (List Char)) (bs : List (List (List Char))) :
    separated (b :: c :: bs) = b ++ [] :: separated (c :: bs) := by
  simp [separated, List.intercalate]

theorem mem_separated {bs : List (List (List Char))} {l : List Char} (h : l ∈ separated bs) :
    l = [] ∨ ∃ b ∈ bs, l ∈ b := by
  induction bs with
  | nil => cases h
  | cons b bs ih =>
    cases bs with
    | nil =>
      rw [separated_singleton] at h
      exact .inr ⟨b, List.mem_cons_self, h⟩
    | cons c cs =>
      rw [separated_cons_cons] at h
      rcases List.mem_append.1 h with h | h
      · exact .inr ⟨b, List.mem_cons_self, h⟩
      rcases List.mem_cons.1 h with rfl | h
      · exact .inl rfl
      · exact (ih h).imp_right fun ⟨d, hd, hl⟩ ↦ ⟨d, List.mem_cons_of_mem _ hd, hl⟩

/-- Blocks set with a blank line between them are the lines of the blocks. -/
theorem intercalate_joinLines {bs : List (List (List Char))} (hne : bs ≠ [])
    (h : ∀ b ∈ bs, b ≠ []) :
    ['\n', '\n'].intercalate (bs.map joinLines) ++ ['\n'] = unlines (separated bs) := by
  induction bs with
  | nil => exact absurd rfl hne
  | cons b bs ih =>
    obtain ⟨hb, hbs⟩ := List.forall_mem_cons.1 h
    cases bs with
    | nil =>
      rw [separated_singleton, ← unlines_eq_joinLines hb]
      simp [List.intercalate]
    | cons c cs =>
      have hsplit : ['\n', '\n'].intercalate ((b :: c :: cs).map joinLines) =
          (joinLines b ++ ['\n']) ++
            '\n' :: ['\n', '\n'].intercalate ((c :: cs).map joinLines) := by
        simp [List.intercalate]
      rw [hsplit, List.append_assoc, List.cons_append, ih (by simp) hbs, unlines_eq_joinLines hb,
        separated_cons_cons, unlines_append, unlines_cons, List.nil_append]

/-- The blocks of a canonical text with the given lines for the presentation. -/
def Diagram.blocks (d : Diagram) (presentation : List String) : List (List String) :=
  d.tables.map Table.lines ++ if presentation.isEmpty then [] else [presentation]

/-- The characters of lines. -/
def toLists (ls : List String) : List (List Char) := ls.map String.toList

theorem toList_joinBlocks {bs : List (List String)} (h : ∀ b ∈ bs, b ≠ []) :
    (Diagram.joinBlocks (bs.map ("\n".intercalate ·))).toList =
      unlines (separated (bs.map toLists)) := by
  rw [Diagram.joinBlocks]
  cases bs with
  | nil => rfl
  | cons b bs =>
    have hmap : ((b :: bs).map ("\n".intercalate ·)).map String.toList =
        ((b :: bs).map toLists).map joinLines := by
      rw [List.map_map, List.map_map]
      exact List.map_congr_left fun c _ ↦ String.toList_intercalate
    rw [if_neg (by simp), String.toList_append, String.toList_intercalate, hmap]
    refine intercalate_joinLines (by simp) ?_
    intro c hc
    obtain ⟨c, hm, rfl⟩ := List.mem_map.1 hc
    simpa [toLists] using h _ hm

/-- **A canonical text is the lines of its blocks.** -/
theorem Diagram.toList_text {d : Diagram} {withPresentation : Bool} {s : String}
    (h : d.text withPresentation = .ok s) :
    ∃ lines, (if withPresentation then d.presentationLines = .ok lines else lines = []) ∧
      s.toList = unlines (separated ((d.blocks lines).map toLists)) := by
  have hne (lines : List String) : ∀ b ∈ d.blocks lines, b ≠ [] := by
    intro b hb
    rcases List.mem_append.1 hb with hb | hb
    · obtain ⟨t, _, rfl⟩ := List.mem_map.1 hb
      exact List.cons_ne_nil _ _
    · split at hb
      · cases hb
      · next hlines =>
        rw [List.mem_singleton.1 hb]
        rintro rfl
        exact hlines rfl
  have hblocks (lines : List String) : (d.blocks lines).map ("\n".intercalate ·) =
      d.tables.map Table.text ++ if lines.isEmpty then [] else ["\n".intercalate lines] := by
    rw [blocks, List.map_append, List.map_map, apply_ite (List.map _)]
    rfl
  rw [text] at h
  split at h
  · next hb =>
    cases hlines : d.presentationLines with
    | error e =>
      rw [hlines] at h
      cases h
    | ok lines =>
      rw [hlines] at h
      obtain rfl := Except.ok.inj h
      exact ⟨lines, by rw [if_pos hb], by rw [← toList_joinBlocks (hne lines), hblocks]⟩
  · next hb =>
    obtain rfl := Except.ok.inj h
    refine ⟨[], by rw [if_neg hb], ?_⟩
    rw [← toList_joinBlocks (hne []), hblocks, tablesText]
    exact congrArg (String.toList <| joinBlocks ·) (List.append_nil _).symm

end ErDiagram
