import Mathlib.Data.List.Forall2

/-!
# Results and reasons why there is none

When a computation in steps has a result and what it is, and for what reason it has none.
Statements about the numbers of a text are proved for any value and then applied to those numbers,
which are too large to be computed with.

All lemmas are equivalences.  With them a computation in several steps is taken apart by rewriting:
from the front for what it results in, and for the reason of a failure into the step that failed and
those before it that did not.
-/

set_option autoImplicit false

namespace ErDiagram

/-! ## One step after the other

A computation has a result if each of its steps has one, and it fails for the reason of the first
step that fails. -/

theorem bind_eq_ok_iff {ε α β : Type} {x : Except ε α} {f : α → Except ε β} {b : β} :
    (x >>= f) = .ok b ↔ ∃ a, x = .ok a ∧ f a = .ok b := by
  cases x <;> simp [bind, Except.bind]

theorem map_eq_ok_iff {ε α β : Type} {x : Except ε α} {f : α → β} {b : β} :
    x.map f = .ok b ↔ ∃ a, x = .ok a ∧ f a = b := by
  cases x <;> simp [Except.map]

theorem bind_eq_error_iff {ε α β : Type} {x : Except ε α} {f : α → Except ε β} {e : ε} :
    (x >>= f) = .error e ↔ x = .error e ∨ ∃ a, x = .ok a ∧ f a = .error e := by
  cases x <;> simp [bind, Except.bind]

theorem bind_ok_eq_error_iff {ε α β : Type} {x : Except ε α} {f : α → β} {e : ε} :
    (x >>= fun a ↦ .ok (f a)) = .error e ↔ x = .error e := by
  cases x <;> simp [bind, Except.bind]

theorem map_eq_error_iff {ε α β : Type} {x : Except ε α} {f : α → β} {e : ε} :
    x.map f = .error e ↔ x = .error e := by
  cases x <;> simp [Except.map]

theorem elim_eq_ok_iff {ε α : Type} {o : Option α} {e : ε} {a : α} :
    o.elim (.error e) Except.ok = .ok a ↔ o = some a := by
  cases o <;> simp

/-- Of two results that can be missing for one reason each has to be there. -/
theorem pair_eq_error_iff {ε α β γ : Type} {u : Except ε α} {v : Except ε β} {f : α → β → γ}
    {e e₀ : ε} {P Q : Prop} (hu : ∀ e, u = .error e ↔ e = e₀ ∧ P)
    (hv : ∀ e, v = .error e ↔ e = e₀ ∧ Q) :
    (u >>= fun a ↦ v >>= fun b ↦ .ok (f a b)) = .error e ↔ e = e₀ ∧ (P ∨ Q) := by
  cases u with
  | error e' =>
    obtain ⟨rfl, hP⟩ := (hu e').1 rfl
    simp [bind, Except.bind, hP, eq_comm]
  | ok a =>
    have hP : ¬P := fun hP ↦ nomatch (hu e₀).2 ⟨rfl, hP⟩
    cases v with
    | error e' =>
      obtain ⟨rfl, hQ⟩ := (hv e').1 rfl
      simp [bind, Except.bind, hQ, eq_comm]
    | ok b =>
      have hQ : ¬Q := fun hQ ↦ nomatch (hv e₀).2 ⟨rfl, hQ⟩
      simp [bind, Except.bind, hP, hQ]

/-! ## Steps along a list

The same for one step for each item of a list.  If every step can only fail for one and the same
reason, it does not matter which step it is; if not, the first one decides. -/

section List

variable {α β ε : Type} {f : α → Except ε β} {l : List α} {e : ε}

/-- A traversal that succeeds is a list of its steps. -/
theorem mapM_eq_ok_iff {bs : List β} :
    l.mapM f = .ok bs ↔ List.Forall₂ (fun a b ↦ f a = .ok b) l bs := by
  induction l generalizing bs with
  | nil =>
    rw [List.forall₂_nil_left_iff, List.mapM_nil]
    exact ⟨fun h ↦ (Except.ok.inj h).symm, fun h ↦ congrArg Except.ok h.symm⟩
  | cons a l ih =>
    rw [List.mapM_cons, List.forall₂_cons_left_iff, bind_eq_ok_iff]
    constructor
    · rintro ⟨b, hb, h⟩
      obtain ⟨bs', hbs, h⟩ := bind_eq_ok_iff.1 h
      exact ⟨b, bs', hb, ih.1 hbs, (Except.ok.inj h).symm⟩
    · rintro ⟨b, bs', hb, hbs, rfl⟩
      exact ⟨b, hb, bind_eq_ok_iff.2 ⟨bs', ih.2 hbs, rfl⟩⟩

theorem exists_mapM_eq_ok_iff : (∃ bs, l.mapM f = .ok bs) ↔ ∀ a ∈ l, ∃ b, f a = .ok b := by
  simp only [mapM_eq_ok_iff]
  induction l with
  | nil => simp
  | cons a l ih =>
    rw [List.forall_mem_cons, ← ih]
    constructor
    · rintro ⟨bs, h⟩
      obtain ⟨b, bs', hb, hbs, -⟩ := List.forall₂_cons_left_iff.1 h
      exact ⟨⟨b, hb⟩, bs', hbs⟩
    · rintro ⟨⟨b, hb⟩, bs, hbs⟩
      exact ⟨b :: bs, .cons hb hbs⟩

/-- What a traversal results in comes from its steps. -/
theorem exists_of_mem_mapM {bs : List β} {b : β} (h : l.mapM f = .ok bs) (hb : b ∈ bs) :
    ∃ a ∈ l, f a = .ok b := by
  induction mapM_eq_ok_iff.1 h with
  | nil => cases hb
  | @cons a b' l bs hab hlbs ih =>
    rcases List.mem_cons.1 hb with rfl | hb
    · exact ⟨a, List.mem_cons_self, hab⟩
    · obtain ⟨a', ha', hb⟩ := ih (mapM_eq_ok_iff.2 hlbs) hb
      exact ⟨a', List.mem_cons_of_mem a ha', hb⟩

/-- A traversal whose steps can fail for one reason fails if one step does. -/
theorem mapM_eq_error_iff {e₀ : ε} {P : α → Prop} (h : ∀ a e, f a = .error e ↔ e = e₀ ∧ P a) :
    l.mapM f = .error e ↔ e = e₀ ∧ ∃ a ∈ l, P a := by
  induction l generalizing e with
  | nil => simp [pure, Except.pure]
  | cons a l ih =>
    rw [List.mapM_cons, List.exists_mem_cons_iff]
    exact pair_eq_error_iff (h a) fun _ ↦ ih

/-- A traversal whose steps fail for reasons of their own fails for that of the first that does. -/
theorem mapM_eq_error_iff_find? {p : α → Bool} {g : α → ε}
    (h : ∀ a e, f a = .error e ↔ p a = true ∧ e = g a) :
    l.mapM f = .error e ↔ ∃ a, l.find? p = some a ∧ e = g a := by
  induction l with
  | nil => simp [pure, Except.pure]
  | cons a l ih =>
    rw [List.mapM_cons]
    cases ha : f a with
    | error e' =>
      obtain ⟨hp, rfl⟩ := (h a e').1 ha
      rw [List.find?_cons_of_pos hp]
      simp [bind, Except.bind, eq_comm]
    | ok b =>
      have hp : ¬p a = true := fun hp ↦ nomatch ha.symm.trans ((h a (g a)).2 ⟨hp, rfl⟩)
      rw [List.find?_cons_of_neg hp, ← ih]
      exact bind_ok_eq_error_iff

end List

/-- A run fails at the first step that fails. -/
theorem foldlM_eq_error_iff {ε α β : Type} {f : β → α → Except ε β} {as : List α} {b : β} {e : ε} :
    as.foldlM f b = .error e ↔ ∃ i c a,
      (as.take i).foldlM f b = .ok c ∧ as[i]? = some a ∧ f c a = .error e := by
  induction as generalizing b with
  | nil => simp [pure, Except.pure]
  | cons a as ih =>
    rw [List.foldlM_cons, bind_eq_error_iff]
    constructor
    · rintro (h | ⟨c, hc, h⟩)
      · exact ⟨0, b, a, rfl, rfl, h⟩
      · obtain ⟨i, c', a', hrun, ha', h⟩ := ih.1 h
        refine ⟨i + 1, c', a', ?_, ha', h⟩
        rw [List.take_succ_cons, List.foldlM_cons]
        exact bind_eq_ok_iff.2 ⟨c, hc, hrun⟩
    · rintro ⟨_ | i, c', a', hrun, ha', h⟩
      · obtain rfl := Except.ok.inj hrun
        obtain rfl := Option.some.inj ha'
        exact .inl h
      · rw [List.take_succ_cons, List.foldlM_cons] at hrun
        obtain ⟨c, hc, hrun⟩ := bind_eq_ok_iff.1 hrun
        exact .inr ⟨c, hc, ih.2 ⟨i, c', a', hrun, ha', h⟩⟩

end ErDiagram
