import Mathlib

/-!
**One key of a write-back cache** — nothing, or an entry with a value and two marks: *dirty*
(it may differ from the store below) and *fresh* (the store below has no value for the key, so
an entry without a value may be dropped).  `Sound below cell` is what the marks promise, and
every operation keeps it.
-/

namespace VBitcoin.WriteBack

universe u

variable {V : Type u}

/-- A cached value (`none`: known to be absent) with its marks. -/
structure Entry (V : Type u) where
  value : Option V
  dirty : Bool
  fresh : Bool

abbrev Cell (V : Type u) := Option (Entry V)

/-- The value seen through a cell over a store that has `below` for the key. -/
def view (cell : Cell V) (below : Option V) : Option V :=
  match cell with
  | some entry => entry.value
  | none => below

@[simp] theorem view_none (below : Option V) : view none below = below := rfl

@[simp] theorem view_some (entry : Entry V) (below : Option V) :
    view (some entry) below = entry.value := rfl

/-- What the marks promise about the store below. -/
structure Sound (below : Option V) (cell : Cell V) : Prop where
  fresh_absent : ∀ entry, cell = some entry → entry.fresh = true → below = none
  clean_same : ∀ entry, cell = some entry → entry.dirty = false → entry.value = below

@[simp] theorem sound_none (below : Option V) : Sound below none :=
  ⟨fun _ h => (by cases h), fun _ h => (by cases h)⟩

variable {below : Option V} {child parent : Cell V}

theorem sound_some {entry : Entry V} :
    Sound below (some entry) ↔
      (entry.fresh = true → below = none) ∧ (entry.dirty = false → entry.value = below) := by
  constructor
  · intro h
    exact ⟨h.fresh_absent entry rfl, h.clean_same entry rfl⟩
  · rintro ⟨hfresh, hclean⟩
    exact ⟨fun e he => by cases he; exact hfresh, fun e he => by cases he; exact hclean⟩

/-! ### Dropping and writing -/

theorem drop_clean_view {entry : Entry V} (h : Sound below (some entry))
    (hclean : entry.dirty = false) : view none below = view (some entry) below :=
  (h.clean_same entry rfl hclean).symm

/-- `overwrite = false` promises that no value is seen; a dirty entry is not fresh. -/
def put (cell : Cell V) (value : V) (overwrite : Bool) : Entry V :=
  match cell with
  | some entry => ⟨some value, true, entry.fresh || (!overwrite && !entry.dirty)⟩
  | none => ⟨some value, true, !overwrite⟩

theorem put_sound {cell : Cell V} {value : V} {overwrite : Bool}
    (h : Sound below cell) (hpromise : overwrite = false → view cell below = none) :
    Sound below (some (put cell value overwrite)) := by
  rw [sound_some]
  cases cell with
  | none =>
    refine ⟨fun hfresh => hpromise ?_, fun hdirty => by cases hdirty⟩
    simpa [put] using hfresh
  | some entry =>
    refine ⟨fun hfresh => ?_, fun hdirty => by cases hdirty⟩
    simp only [put, Bool.or_eq_true, Bool.and_eq_true, Bool.not_eq_true'] at hfresh
    rcases hfresh with hfresh | ⟨hoverwrite, hclean⟩
    · exact h.fresh_absent entry rfl hfresh
    · -- the entry repeats the store, and it has no value
      rw [← h.clean_same entry rfl hclean]
      exact hpromise hoverwrite

/-! ### Flushing a child cell into its parent -/

/-- What the parent's cell becomes when the child's cell is written to it. -/
def merge (child parent : Cell V) : Cell V :=
  match child with
  | none => parent
  | some entry =>
    if entry.dirty then
      match parent with
      | none => if entry.fresh && entry.value.isNone then none else some { entry with dirty := true }
      | some ours =>
        if ours.fresh && entry.value.isNone then none
        else some ⟨entry.value, true, ours.fresh⟩
    else parent

/-- A fresh child over a parent entry with a value: the marks were misused. -/
def conflict (child parent : Cell V) : Bool :=
  match child, parent with
  | some entry, some ours => entry.dirty && entry.fresh && ours.value.isSome
  | _, _ => false

theorem conflict_eq_false
    (hchild : Sound (view parent below) child) : conflict child parent = false := by
  cases child with
  | none => rfl
  | some entry =>
    cases parent with
    | none => rfl
    | some ours =>
      by_cases hfresh : entry.fresh = true
      · have habsent := hchild.fresh_absent entry rfl hfresh
        rw [view_some] at habsent
        simp [conflict, habsent]
      · simp [conflict, hfresh]

/-- **A flush changes nothing that is seen.** -/
theorem merge_view (hchild : Sound (view parent below) child) (hparent : Sound below parent) :
    view (merge child parent) below = view child (view parent below) := by
  cases child with
  | none => rfl
  | some entry =>
    by_cases hdirty : entry.dirty = true
    · cases parent with
      | none =>
        -- a fresh child without a value is dropped: nothing is below it
        by_cases hdrop : (entry.fresh && entry.value.isNone) = true
        · simp only [Bool.and_eq_true, Option.isNone_iff_eq_none] at hdrop
          have habsent := hchild.fresh_absent entry rfl hdrop.1
          rw [view_none] at habsent
          simp [merge, hdirty, hdrop, habsent]
        · simp [merge, hdirty, hdrop]
      | some ours =>
        -- the parent's own entry is dropped under the same condition
        by_cases hdrop : (ours.fresh && entry.value.isNone) = true
        · simp only [Bool.and_eq_true, Option.isNone_iff_eq_none] at hdrop
          have habsent := hparent.fresh_absent ours rfl hdrop.1
          simp [merge, hdirty, hdrop, habsent]
        · simp [merge, hdirty, hdrop]
    · rw [Bool.not_eq_true] at hdirty
      simp [merge, hdirty, hchild.clean_same entry rfl hdirty]

/-- **A flush keeps the parent's promise.** -/
theorem merge_sound (hchild : Sound (view parent below) child) (hparent : Sound below parent) :
    Sound below (merge child parent) := by
  cases child with
  | none => exact hparent
  | some entry =>
    by_cases hdirty : entry.dirty = true
    · cases parent with
      | none =>
        by_cases hdrop : (entry.fresh && entry.value.isNone) = true
        · simp [merge, hdirty, hdrop]
        · have hfresh := hchild.fresh_absent entry rfl
          simpa [merge, hdirty, hdrop, sound_some] using hfresh
      | some ours =>
        by_cases hdrop : (ours.fresh && entry.value.isNone) = true
        · simp [merge, hdirty, hdrop]
        · have hfresh := hparent.fresh_absent ours rfl
          simpa [merge, hdirty, hdrop, sound_some] using hfresh
    · simpa [merge, hdirty] using hparent

end VBitcoin.WriteBack
