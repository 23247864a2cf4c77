import ErDiagram.Proofs.Directive.Rereading

/-!
# Settings

A *setting* is what a single value of a presentation is for: a slot that holds one value, or the
position of one table.  A line and the directive that it stands for have the same setting
(`DirectiveLine.setting_of_value`).

The notion is finer than that of a slot in one place only.  All positions belong to one slot but
each table has a setting of its own, and it is settings of which a text says something, which an
edit changes or leaves alone, and which a presentation is put together from.
-/

set_option autoImplicit false

namespace ErDiagram

/-- What a single value of a presentation is for. -/
inductive Setting where
  /-- The point in view. -/
  | view
  /-- The zoom factor. -/
  | zoom
  /-- The color for a role. -/
  | color (role : ColorRole)
  /-- The position of a table. -/
  | position (table : String)
  deriving DecidableEq

/-- The slot that a setting belongs to. -/
def Setting.slot : Setting → Slot
  | view => .view
  | zoom => .zoom
  | color role => .color role
  | position _ => .position

/-- The setting that a directive is for. -/
def Directive.setting : Directive → Setting
  | view _ => .view
  | zoom _ => .zoom
  | color role _ => .color role
  | position table _ => .position table

/-- The setting that a line makes a claim to. -/
def DirectiveLine.setting : DirectiveLine → Setting
  | view _ _ => .view
  | zoom _ => .zoom
  | color role _ => .color role
  | position table _ _ _ => .position (String.ofList table)

@[simp]
theorem Directive.slot_setting (d : Directive) : d.setting.slot = d.slot := by
  cases d <;> rfl

@[simp]
theorem DirectiveLine.slot_setting (l : DirectiveLine) : l.setting.slot = l.slot := by
  cases l <;> rfl

/-- Only the slot of positions has several settings. -/
theorem Setting.eq_of_slot_eq {j k : Setting} (h : j.slot = k.slot) (hk : k.slot ≠ .position) :
    j = k := by
  cases k with
  | view | zoom => cases j <;> first | rfl | cases h
  | color role =>
    cases j with
    | color role' => rw [Slot.color.inj h]
    | view | zoom | position => cases h
  | position => exact absurd rfl hk

/-- A line for the slot of a directive is for its setting. -/
theorem DirectiveLine.setting_eq_of_slot_eq {l : DirectiveLine} {d : Directive}
    (h : l.slot = d.slot) (hl : l.slot ≠ .position) : l.setting = d.setting :=
  Setting.eq_of_slot_eq (by simpa using h) (by rwa [d.slot_setting, ← h])

theorem DirectiveLine.setting_of_value {l : DirectiveLine} {d : Directive}
    (h : l.value = .ok d) : d.setting = l.setting := by
  cases l with
  | view | position =>
    obtain ⟨_, _, h⟩ := bind_eq_ok_iff.1 h
    obtain ⟨_, _, h⟩ := bind_eq_ok_iff.1 h
    obtain rfl := Except.ok.inj h
    rfl
  | zoom | color =>
    obtain rfl := Except.ok.inj h
    rfl

theorem Directive.slot_of_value {l : DirectiveLine} {d : Directive} (h : l.value = .ok d) :
    d.slot = l.slot := by
  rw [← d.slot_setting, DirectiveLine.setting_of_value h, l.slot_setting]

end ErDiagram
