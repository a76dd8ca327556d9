import Mathlib

/-!
**Step functions** — a list of periods, each with its end and its value, and a value after the
last.  They fall when the values do, their sum over the periods is the sum of length times
value, and a value that is halved after every interval adds up to less than twice what it
gives over the first one.
-/

namespace VBitcoin.StepFunctions

variable {α : Type}

def valueAt (periods : List (Nat × α)) (final : α) (n : Nat) : α :=
  match periods.find? fun period => n < period.1 with
  | some period => period.2
  | none => final

theorem valueAt_cons (period : Nat × α) (periods : List (Nat × α)) (final : α) (n : Nat) :
    valueAt (period :: periods) final n =
      if n < period.1 then period.2 else valueAt periods final n := by
  unfold valueAt
  by_cases h : n < period.1
  · simp [h]
  · simp [h]

theorem valueAt_mem (periods : List (Nat × α)) (final : α) (n : Nat) :
    valueAt periods final n ∈ periods.map Prod.snd ++ [final] := by
  induction periods with
  | nil => exact List.mem_singleton.mpr rfl
  | cons period periods ih =>
    rw [valueAt_cons]
    split
    · exact List.mem_cons_self
    · exact List.mem_cons_of_mem _ ih

variable {periods : List (Nat × α)} {final : α} {interval : Nat}

theorem valueAt_eq_final {n : Nat}
    (h : ∀ period ∈ periods, period.1 ≤ n) : valueAt periods final n = final := by
  induction periods with
  | nil => rfl
  | cons period periods ih =>
    rw [valueAt_cons, if_neg (Nat.not_lt.mpr (h period List.mem_cons_self)),
      ih (List.forall_mem_cons.mp h).2]

theorem valueAt_antitone [Preorder α]
    (h : (periods.map Prod.snd ++ [final]).Pairwise (· ≥ ·)) : Antitone (valueAt periods final) := by
  intro n m hnm
  induction periods with
  | nil => exact le_refl _
  | cons period periods ih =>
    obtain ⟨hfirst, hrest⟩ := List.pairwise_cons.mp h
    rw [valueAt_cons, valueAt_cons]
    by_cases hm : m < period.1
    · rw [if_pos hm, if_pos (Nat.lt_of_le_of_lt hnm hm)]
    · rw [if_neg hm]
      split
      · exact hfirst _ (valueAt_mem periods final m)
      · exact ih hrest

/-! ### Sums -/

/-- Length times value, over all periods from `start` on. -/
def total [AddCommMonoid α] : Nat → List (Nat × α) → α
  | _, [] => 0
  | start, period :: periods => (period.1 - start) • period.2 + total period.1 periods

def lastEnd : Nat → List (Nat × α) → Nat
  | start, [] => start
  | _, period :: periods => lastEnd period.1 periods

theorem le_lastEnd : ∀ {start : Nat} {periods : List (Nat × α)},
    (start :: periods.map Prod.fst).IsChain (· ≤ ·) → start ≤ lastEnd start periods
  | _, [], _ => le_refl _
  | _, _ :: _, h => (List.isChain_cons_cons.mp h).1.trans (le_lastEnd (List.isChain_cons_cons.mp h).2)

theorem sum_valueAt [AddCommMonoid α] (final : α) : ∀ {start : Nat} {periods : List (Nat × α)},
    (start :: periods.map Prod.fst).IsChain (· ≤ ·) →
    ∑ n ∈ Finset.Ico start (lastEnd start periods), valueAt periods final n = total start periods
  | start, [], _ => by rw [lastEnd, Finset.Ico_self, Finset.sum_empty, total]
  | start, period :: periods, h => by
    obtain ⟨hstart, hrest⟩ := List.isChain_cons_cons.mp h
    have hfirst : ∑ n ∈ Finset.Ico start period.1, valueAt (period :: periods) final n =
        (period.1 - start) • period.2 := by
      rw [← Nat.card_Ico, ← Finset.sum_const]
      apply Finset.sum_congr rfl
      intro n hn
      rw [valueAt_cons, if_pos (Finset.mem_Ico.mp hn).2]
    have hlater : ∑ n ∈ Finset.Ico period.1 (lastEnd period.1 periods),
        valueAt (period :: periods) final n = total period.1 periods := by
      rw [← sum_valueAt final hrest]
      apply Finset.sum_congr rfl
      intro n hn
      rw [valueAt_cons, if_neg (Nat.not_lt.mpr (Finset.mem_Ico.mp hn).1)]
    rw [lastEnd, ← Finset.sum_Ico_consecutive _ hstart (le_lastEnd hrest), hfirst, hlater, total]

theorem sum_range_div (f : Nat → Nat) (hpos : 0 < interval) (count : Nat) :
    ∑ n ∈ Finset.range (interval * count), f (n / interval) =
      interval * ∑ k ∈ Finset.range count, f k := by
  induction count with
  | zero => rw [Nat.mul_zero, Finset.range_zero, Finset.sum_empty, Finset.sum_empty, Nat.mul_zero]
  | succ count ih =>
    have hlast : ∑ n ∈ Finset.range interval, f ((interval * count + n) / interval) =
        interval * f count := by
      have hconst : ∀ n ∈ Finset.range interval, f ((interval * count + n) / interval) = f count := by
        intro n hn
        rw [Nat.mul_add_div hpos, Nat.div_eq_of_lt (Finset.mem_range.mp hn), Nat.add_zero]
      rw [Finset.sum_const_nat hconst, Finset.card_range]
    rw [Nat.mul_succ, Finset.sum_range_add, ih, hlast, Finset.sum_range_succ, Nat.mul_add]

theorem sum_halvings_le (value : Nat) (hpos : 0 < interval) (count : Nat) :
    ∑ n ∈ Finset.range count, value / 2 ^ (n / interval) ≤ interval * (value * 2) := by
  have hgeom := Nat.geom_sum_le (le_refl 2) value count
  calc
    ∑ n ∈ Finset.range count, value / 2 ^ (n / interval)
      ≤ ∑ n ∈ Finset.range (interval * count), value / 2 ^ (n / interval) :=
        Finset.sum_le_sum_of_subset
          (Finset.range_subset_range.mpr (Nat.le_mul_of_pos_left count hpos))
    _ = interval * ∑ k ∈ Finset.range count, value / 2 ^ k :=
        sum_range_div (fun k => value / 2 ^ k) hpos count
    _ ≤ interval * (value * 2) := by
        apply Nat.mul_le_mul_left
        simpa using hgeom

end VBitcoin.StepFunctions
