import Mathlib.Logic.Function.Iterate
import ErDiagram.Proofs.Selection.Runs

/-!
# Mirrors of a selection

Every operation says which changes it made, and a *listener* is told of each as soon as it is made.
A listener is not bound to keep still: on being told of a change it may perform operations of its
own, and hear of theirs in turn, or it may fail and with that break off operations that were still
to come.  Whatever it does, the changes that it was told of, made one after the other to the columns
at the start, are always possible and lead to the columns that are chosen now
(`Selection.replay_told`).

The reason is that an operation makes one change at most, as the last thing it does
(`Selection.replay_perform`), so between two changes no listener finds a selection that differs from
its mirror.
-/

set_option autoImplicit false

namespace ErDiagram.Selection

/-! ## Making changes again

A change is made again by adding at the end or removing the first occurrence, as the selection does.
That replaying may fail is part of the statement: a listener that is told to remove a column which
it does not have would have lost track. -/

/-- Columns after a change.  A column can be removed only if it is there, and then its first
occurrence goes. -/
def Change.apply? (columns : List Column) : Change → Option (List Column)
  | .add c => some (columns ++ [c])
  | .remove c => if c ∈ columns then some (columns.erase c) else none

/-- Columns after some changes, if each of them is possible. -/
def replay (columns : List Column) (changes : List Change) : Option (List Column) :=
  changes.foldlM Change.apply? columns

theorem replay_append (columns : List Column) (changes changes' : List Change) :
    replay columns (changes ++ changes') =
      (replay columns changes).bind fun columns ↦ replay columns changes' :=
  List.foldlM_append ..

variable {s : Selection} {c : Column}

theorem remove_of_mem (h : c ∈ s.columns) :
    s.remove c = ({ s with columns := s.columns.erase c }, [.remove c]) := by
  have hcolumns := columns_remove s c
  obtain ⟨i, hi⟩ := Option.isSome_iff_exists.1 (contains_iff.2 h)
  rw [remove, hi] at hcolumns ⊢
  rw [← hcolumns]

theorem remove_of_notMem (h : c ∉ s.columns) : s.remove c = (s, []) := by
  rw [remove, Option.not_isSome_iff_eq_none.1 (contains_iff.not.2 h)]

/-- **The changes that an operation makes lead to its columns.** -/
theorem replay_perform (s : Selection) (op : Operation) :
    replay s.columns (s.perform op).2 = some (s.perform op).1.columns := by
  have hremove {c : Column} (hc : c ∈ s.columns) :
      replay s.columns (s.remove c).2 = some (s.remove c).1.columns := by
    rw [remove_of_mem hc, replay, List.foldlM_cons, Change.apply?, if_pos hc]
    rfl
  cases op with
  | add c => rfl
  | remove c =>
    by_cases hc : c ∈ s.columns
    · exact hremove hc
    · rw [perform, remove_of_notMem hc]
      rfl
  | toggle c =>
    rw [perform, toggle]
    by_cases hc : c ∈ s.columns
    · rw [if_pos (contains_iff.2 hc)]
      exact hremove hc
    · rw [if_neg (contains_iff.not.2 hc)]
      rfl
  | setTables tables => rfl

/-! ## Listeners

A listener is any function of its own state, the change and the operations that are still to come.
That covers those that perform operations while they are told of a change, and those that fail.
With a session in small steps, the claim is an invariant of one step and there is no induction over
nested calls. -/

/-- Somebody who is told of the changes of a selection. -/
structure Listener (σ : Type) where
  /-- What the listener is like after it was told of a change, and what is to be done next, given
  what was to be done: operations that it performs itself come in front, and those that it breaks
  off are left out. -/
  hear : σ → Change → List Operation → σ × List Operation

/-- A selection with a listener, while operations are performed. -/
structure Session (σ : Type) where
  /-- The selection. -/
  selection : Selection
  /-- What the listener is like. -/
  listener : σ
  /-- The operations that are still to be performed. -/
  pending : List Operation
  /-- The changes that the listener was told of. -/
  told : List Change := []

/-- A session after the next operation, if there is one. -/
def Session.step {σ : Type} (L : Listener σ) (t : Session σ) : Session σ :=
  match t.pending with
  | [] => t
  | op :: ops =>
    let (selection, changes) := t.selection.perform op
    let (listener, pending) := changes.foldl (fun (l, ops) c ↦ L.hear l c ops) (t.listener, ops)
    { selection, listener, pending, told := t.told ++ changes }

variable {σ : Type} (L : Listener σ)

theorem replay_told_step {columns : List Column} {t : Session σ}
    (h : replay columns t.told = some t.selection.columns) :
    replay columns (t.step L).told = some (t.step L).selection.columns := by
  rw [Session.step]
  split
  · exact h
  · next op ops _ =>
    show replay columns (t.told ++ (t.selection.perform op).2) = _
    rw [replay_append, h]
    exact replay_perform t.selection op

theorem replay_told_iterate (l : σ) (s : Selection) (ops : List Operation) (n : Nat) :
    replay s.columns ((Session.step L)^[n] ⟨s, l, ops, []⟩).told =
      some ((Session.step L)^[n] ⟨s, l, ops, []⟩).selection.columns := by
  induction n with
  | zero => rfl
  | succ n ih =>
    rw [Function.iterate_succ_apply']
    exact replay_told_step L ih

/-- A listener that removes a column as soon as it is added, and counts what it hears. -/
def refusing : Listener Nat where
  hear n
    | .add c, ops => (n + 1, .remove c :: ops)
    | .remove _, ops => (n + 1, ops)

example : ((Session.step refusing)^[4] ⟨{}, 0, [.add ⟨"t", "f"⟩, .toggle ⟨"t", "f"⟩], []⟩).told =
    [.add ⟨"t", "f"⟩, .remove ⟨"t", "f"⟩, .add ⟨"t", "f"⟩, .remove ⟨"t", "f"⟩] := by decide

/-! ### Listeners that keep still

For a listener that does nothing the session comes to an end after as many steps as there are
operations, which ties the small steps to running all operations at once. -/

/-- The changes that operations make. -/
def changes (s : Selection) : List Operation → List Change
  | [] => []
  | op :: ops => (s.perform op).2 ++ (s.perform op).1.changes ops

/-- A listener that does nothing. -/
def still : Listener Unit where
  hear _ _ ops := ((), ops)

theorem foldl_still (changes : List Change) (ops : List Operation) :
    changes.foldl (fun (l, ops) c ↦ still.hear l c ops) ((), ops) = ((), ops) := by
  induction changes with
  | nil => rfl
  | cons c changes ih => exact ih

/-- With a listener that does nothing, all operations are performed, and it is told of the changes
that they make. -/
theorem iterate_step_still (s : Selection) (ops : List Operation) (told : List Change) :
    (Session.step still)^[ops.length] ⟨s, (), ops, told⟩ =
      ⟨s.run ops, (), [], told ++ s.changes ops⟩ := by
  induction ops generalizing s told with
  | nil => rw [changes, List.append_nil]; rfl
  | cons op ops ih =>
    have hstep : Session.step still ⟨s, (), op :: ops, told⟩ =
        ⟨(s.perform op).1, (), ops, told ++ (s.perform op).2⟩ := by
      rw [Session.step]
      dsimp only
      rw [foldl_still]
    rw [List.length_cons, Function.iterate_succ_apply, hstep, ih, changes, List.append_assoc]
    rfl

/-- **A mirror shows the selection.**  At any time the changes that a listener was told of are
possible one after the other, and lead from the columns at the start to those that are chosen now;
and so do all the changes of a run that no listener meddles with. -/
theorem replay_told (l : σ) (s : Selection) (ops : List Operation) :
    (∀ n, replay s.columns ((Session.step L)^[n] ⟨s, l, ops, []⟩).told =
      some ((Session.step L)^[n] ⟨s, l, ops, []⟩).selection.columns) ∧
    replay s.columns (s.changes ops) = some (s.run ops).columns := by
  refine ⟨replay_told_iterate L l s ops, ?_⟩
  have hstill := replay_told_iterate still () s ops ops.length
  rwa [iterate_step_still, List.nil_append] at hstill

end ErDiagram.Selection
