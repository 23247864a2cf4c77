import Mathlib.Data.List.Induction
import Mathlib.Data.List.Nodup
import ErDiagram.Selection

/-!
# Runs of operations on a selection

A selection is meant as an ordered set: no column is chosen twice, and `Selection.toggle` says
whether the column is chosen now.  Removing keeps this, and so does toggling, but `Selection.add`
puts a column at the end without a look at those that are there.  A run that starts with nothing
chosen keeps to the meaning (`Selection.IsOrderedSet`) just in case it never adds a column that is
chosen already (`Selection.isOrderedSet_iff`).
-/

set_option autoImplicit false

namespace ErDiagram.Selection

/-- An operation on a selection. -/
inductive Operation where
  /-- Adds a column at the end. -/
  | add (column : Column)
  /-- Removes the first occurrence of a column. -/
  | remove (column : Column)
  /-- Removes a column if it is chosen, and adds it if not. -/
  | toggle (column : Column)
  /-- Puts other tables below the columns. -/
  | setTables (tables : List Table)
  deriving DecidableEq, Repr

/-- A selection after an operation, and the changes that this made. -/
def perform (s : Selection) : Operation → Selection × List Change
  | .add c => s.add c
  | .remove c => s.remove c
  | .toggle c => (s.toggle c).2
  | .setTables tables => (s.setTables tables, [])

/-- A selection after some operations. -/
def run (s : Selection) (ops : List Operation) : Selection :=
  ops.foldl (fun s op ↦ (s.perform op).1) s

/-- All along a run of operations, a selection behaves as an ordered set. -/
structure IsOrderedSet (s : Selection) (ops : List Operation) : Prop where
  /-- At no time is a column chosen twice. -/
  nodup : ∀ before after, ops = before ++ after → (s.run before).columns.Nodup
  /-- Every toggling says whether the column is chosen afterwards. -/
  toggle : ∀ before c after, ops = before ++ .toggle c :: after →
    ((s.run before).toggle c).1 = (s.run (before ++ [.toggle c])).contains c

variable {s : Selection} {c : Column} {op : Operation} {ops : List Operation}

/-! ## One operation

What each operation does to the columns is said in terms of `List.erase` and appending.  Toggling a
column that is chosen twice leaves one occurrence behind, and answers that it is not chosen. -/

theorem run_concat (s : Selection) (ops : List Operation) (op : Operation) :
    s.run (ops ++ [op]) = ((s.run ops).perform op).1 := by
  rw [run, List.foldl_concat]
  rfl

theorem contains_iff : s.contains c = true ↔ c ∈ s.columns := by
  simp [contains, index?]

theorem columns_remove (s : Selection) (c : Column) :
    (s.remove c).1.columns = s.columns.erase c := by
  rw [List.erase_eq_eraseIdx, List.idxOf?, remove, index?]
  split <;> simp [*]

theorem columns_toggle (s : Selection) (c : Column) : (s.toggle c).2.1.columns =
    if c ∈ s.columns then s.columns.erase c else s.columns ++ [c] := by
  rw [toggle]
  by_cases hc : c ∈ s.columns
  · rw [if_pos (contains_iff.2 hc), if_pos hc, columns_remove]
  · rw [if_neg (contains_iff.not.2 hc), if_neg hc]
    rfl

/-- Toggling says what is the case afterwards just in case the column was chosen once at most. -/
theorem toggle_eq_contains_iff :
    (s.toggle c).1 = (s.toggle c).2.1.contains c ↔ s.columns.count c ≤ 1 := by
  rw [Bool.eq_iff_iff, contains_iff, columns_toggle]
  by_cases hc : c ∈ s.columns
  · have hanswer : (s.toggle c).1 = false := by rw [toggle, if_pos (contains_iff.2 hc)]
    have hafter : c ∈ s.columns.erase c ↔ 1 < s.columns.count c := by
      rw [← List.count_pos_iff, List.count_erase_self]
      omega
    rw [hanswer, if_pos hc, hafter]
    simp
  · have hanswer : (s.toggle c).1 = true := by rw [toggle, if_neg (contains_iff.not.2 hc)]
    simp [hanswer, hc, List.count_eq_zero_of_not_mem hc]

theorem nodup_concat_iff : (s.columns ++ [c]).Nodup ↔ s.columns.Nodup ∧ c ∉ s.columns := by
  rw [← List.concat_eq_append, List.nodup_concat, and_comm]

/-- One operation leaves no column chosen twice, if there was none, unless it adds one that is
chosen. -/
theorem nodup_perform_iff (h : s.columns.Nodup) :
    (s.perform op).1.columns.Nodup ↔ ∀ c, op = .add c → c ∉ s.columns := by
  cases op with
  | add c => exact nodup_concat_iff.trans (by simp [h])
  | remove c =>
    have hremove : (s.perform (.remove c)).1.columns.Nodup := columns_remove s c ▸ h.erase c
    simpa using hremove
  | toggle c =>
    have htoggle : (s.perform (.toggle c)).1.columns.Nodup := by
      rw [perform, columns_toggle]
      split
      · exact h.erase c
      · next hc => exact nodup_concat_iff.2 ⟨h, hc⟩
    simpa using htoggle
  | setTables tables =>
    have hset : (s.perform (.setTables tables)).1.columns.Nodup := h
    simpa using hset

/-! ## Runs

The condition asks at each addition whether the column is chosen at that time, so a column that was
removed may be added again.  The two demands on an ordered set fail together: as long as no column
is chosen twice every toggling is right, and the first addition of a chosen column breaks the first
demand. -/

/-- A run adds no column that is chosen already. -/
def AddsOnlyNew (s : Selection) (ops : List Operation) : Prop :=
  ∀ before c after, ops = before ++ .add c :: after → (s.run before).contains c = false

theorem nodup_run (h : s.columns.Nodup) (hnew : s.AddsOnlyNew ops) :
    (s.run ops).columns.Nodup := by
  induction ops using List.reverseRecOn with
  | nil => exact h
  | append_singleton ops op ih =>
    have hops : s.AddsOnlyNew ops := fun before c after heq ↦
      hnew before c (after ++ [op]) (by rw [heq]; simp)
    rw [run_concat, nodup_perform_iff (ih hops)]
    rintro c rfl hc
    exact Bool.eq_false_iff.1 (hnew ops c [] rfl) (contains_iff.2 hc)

/-- **A selection is an ordered set as long as only new columns are added.**  From no column chosen,
a run of operations leaves no column chosen twice, and every toggling says whether the column is
chosen afterwards, just in case each column that is added is not chosen at that time. -/
theorem isOrderedSet_iff (tables : List Table) (ops : List Operation) :
    IsOrderedSet { tables } ops ↔ AddsOnlyNew { tables } ops := by
  constructor
  · intro h before c after hops
    have hnodup := h.nodup (before ++ [.add c]) after (by rw [hops]; simp)
    rw [run_concat, nodup_perform_iff (h.nodup before _ hops)] at hnodup
    exact Bool.eq_false_iff.2 fun hc ↦ hnodup c rfl (contains_iff.1 hc)
  · intro hnew
    have hnodup : ∀ before after, ops = before ++ after →
        (run { tables } before).columns.Nodup := by
      rintro before after rfl
      exact nodup_run List.nodup_nil fun b c a heq ↦ hnew b c (a ++ after) (by rw [heq]; simp)
    refine ⟨hnodup, fun before c after hops ↦ ?_⟩
    rw [run_concat]
    exact toggle_eq_contains_iff.2 (List.nodup_iff_count_le_one.1 (hnodup before _ hops) c)

/-- A column that is added twice is chosen twice, and toggling it says that it is not chosen while
it still is. -/
theorem not_isOrderedSet_addedTwice :
    ¬ (run {} [.add ⟨"user", "id"⟩, .add ⟨"user", "id"⟩]).columns.Nodup ∧
      ((run {} [.add ⟨"user", "id"⟩, .add ⟨"user", "id"⟩]).toggle ⟨"user", "id"⟩).1 = false ∧
      (run {} [.add ⟨"user", "id"⟩, .add ⟨"user", "id"⟩, .toggle ⟨"user", "id"⟩]).contains
        ⟨"user", "id"⟩ = true ∧
      ¬ IsOrderedSet {} [.add ⟨"user", "id"⟩, .add ⟨"user", "id"⟩, .toggle ⟨"user", "id"⟩] := by
  have htwice : ¬ (run {} [.add ⟨"user", "id"⟩, .add ⟨"user", "id"⟩]).columns.Nodup := by decide
  exact ⟨htwice, by decide, by decide, fun h ↦ htwice (h.nodup _ [.toggle ⟨"user", "id"⟩] rfl)⟩

end ErDiagram.Selection
