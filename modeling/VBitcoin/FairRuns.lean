import VBitcoin.GuardedRuns

/-!
**Endless runs and weak fairness** — a system that takes actions for ever, or stands still.  A
finite run is the beginning of an endless one (`ofRun`).  A measure that never rises is
constant from some time on (`exists_stable`), and an agent that stays able to act does so
after that time (`acts_after`).
-/

namespace VBitcoin

open GuardedRuns

variable {σ ε : Type} (step : ε → σ → Option σ) (start : σ)

structure EndlessRun where
  state : Nat → σ
  action : Nat → Option ε
  init : state 0 = start
  next : ∀ i, match action i with
    | none => state (i + 1) = state i
    | some a => step a (state i) = some (state (i + 1))

namespace GuardedRuns

variable {step} {start}

theorem run_append {l₁ l₂ : List ε} {s s₁ : σ} (h : run step l₁ s = some s₁) :
    run step (l₁ ++ l₂) s = run step l₂ s₁ := by
  induction l₁ generalizing s with
  | nil =>
    obtain rfl := Option.some.inj h
    rfl
  | cons a l₁ ih =>
    obtain ⟨s', hs', h⟩ := Option.bind_eq_some_iff.mp h
    rw [List.cons_append, run, hs']
    exact ih h

def Reaches (step : ε → σ → Option σ) (s s' : σ) : Prop := ∃ l, run step l s = some s'

theorem Reaches.single {a : ε} {s s' : σ} (h : step a s = some s') : Reaches step s s' :=
  ⟨[a], Option.bind_eq_some_iff.mpr ⟨s', h, rfl⟩⟩

theorem Reaches.trans {s s₁ s₂ : σ} (h₁ : Reaches step s s₁) (h₂ : Reaches step s₁ s₂) :
    Reaches step s s₂ := by
  obtain ⟨l₁, h₁⟩ := h₁
  obtain ⟨l₂, h₂⟩ := h₂
  exact ⟨l₁ ++ l₂, (run_append h₁).trans h₂⟩

theorem run_take {l : List ε} {s s' : σ} (h : run step l s = some s') (k : Nat) :
    ∃ s₁, run step (l.take k) s = some s₁ := by
  induction l generalizing s k with
  | nil => exact ⟨s, by rw [List.take_nil]; rfl⟩
  | cons a l ih =>
    cases k with
    | zero => exact ⟨s, rfl⟩
    | succ k =>
      obtain ⟨s₁, hs₁, h⟩ := Option.bind_eq_some_iff.mp h
      obtain ⟨s₂, hs₂⟩ := ih h k
      exact ⟨s₂, Option.bind_eq_some_iff.mpr ⟨s₁, hs₁, hs₂⟩⟩

end GuardedRuns

namespace EndlessRun

variable {step} {start}

def ofRun (l : List ε) {s : σ} (h : run step l start = some s) : EndlessRun step start where
  state k := (run step (l.take k) start).getD start
  action k := l[k]?
  init := rfl
  next k := by
    obtain ⟨s₁, hs₁⟩ := run_take h k
    cases hk : l[k]? with
    | none =>
      have hlength := List.getElem?_eq_none_iff.mp hk
      simp only
      rw [List.take_of_length_le hlength, List.take_of_length_le (Nat.le_succ_of_le hlength)]
    | some a =>
      have htake : l.take (k + 1) = l.take k ++ [a] := by
        rw [List.take_add_one, hk]
        rfl
      obtain ⟨s₂, hs₂⟩ := run_take h (k + 1)
      simp only
      rw [hs₂, hs₁, Option.getD_some, Option.getD_some]
      rw [htake, run_append hs₁] at hs₂
      obtain ⟨s₃, hs₃, hdone⟩ := Option.bind_eq_some_iff.mp hs₂
      rw [hs₃, Option.some.inj hdone]

theorem ofRun_state_of_le {l : List ε} {s : σ} (h : run step l start = some s) {k : Nat}
    (hk : l.length ≤ k) : (ofRun l h).state k = s := by
  show (run step (l.take k) start).getD start = s
  rw [List.take_of_length_le hk, h, Option.getD_some]

variable (r : EndlessRun step start)

theorem next_of_action {i : Nat} {a : ε} (h : r.action i = some a) :
    step a (r.state i) = some (r.state (i + 1)) := by
  have hnext := r.next i
  rwa [h] at hnext

theorem next_cases (i : Nat) :
    r.state (i + 1) = r.state i ∨
      ∃ a, r.action i = some a ∧ step a (r.state i) = some (r.state (i + 1)) := by
  cases h : r.action i with
  | none =>
    have hnext := r.next i
    rw [h] at hnext
    exact .inl hnext
  | some a => exact .inr ⟨a, rfl, r.next_of_action h⟩

theorem invariant {P Q : σ → Prop} (hvisits : ∀ i, Q (r.state i))
    (hstart : P start) (hstep : ∀ s a s', Q s → P s → step a s = some s' → P s') (i : Nat) :
    P (r.state i) := by
  induction i with
  | zero =>
    rw [r.init]
    exact hstart
  | succ i ih =>
    rcases r.next_cases i with hsame | ⟨a, -, hnext⟩
    · rw [hsame]
      exact ih
    · exact hstep _ a _ (hvisits i) ih hnext

theorem exists_stable {μ : Nat → Nat} {i : Nat} (h : ∀ j, i ≤ j → μ (j + 1) ≤ μ j) :
    ∃ k, i ≤ k ∧ ∀ j, k ≤ j → μ j = μ k := by
  have hmono : ∀ j k, i ≤ j → j ≤ k → μ k ≤ μ j := by
    intro j k hj hjk
    induction k, hjk using Nat.le_induction with
    | base => exact Nat.le_refl _
    | succ k hjk ih => exact (h k (hj.trans hjk)).trans ih
  -- the least value it takes
  obtain ⟨k, hk, hleast⟩ : ∃ k, i ≤ k ∧ ∀ j, i ≤ j → μ k ≤ μ j := by
    obtain ⟨v, ⟨k, hk, rfl⟩, hmin⟩ := WellFounded.has_min (wellFounded_lt (α := Nat))
      {v | ∃ k, i ≤ k ∧ μ k = v} ⟨μ i, i, Nat.le_refl i, rfl⟩
    exact ⟨k, hk, fun j hj => Nat.le_of_not_lt (hmin (μ j) ⟨j, hj, rfl⟩)⟩
  refine ⟨k, hk, fun j hj => Nat.le_antisymm (hmono k j hk hj) (hleast j (hk.trans hj))⟩

section Fairness

variable {ι : Type} (acts : ι → ε) (enabled : ι → σ → Prop)

/-- An agent that stays able to act from some time on acts. -/
def Fair (r : EndlessRun step start) : Prop :=
  ∀ t i, (∀ j, i ≤ j → enabled t (r.state j)) → ∃ j, i ≤ j ∧ r.action j = some (acts t)

variable {acts enabled}

/-- Able to act while `P` holds, and alone to end it. -/
theorem Fair.acts_after {r : EndlessRun step start} (hfair : r.Fair acts enabled) {t : ι}
    {P : σ → Prop} (hable : ∀ s, P s → enabled t s) {i : Nat} (hi : P (r.state i))
    (hkeep : ∀ j, i ≤ j → P (r.state j) → r.action j ≠ some (acts t) → P (r.state (j + 1))) :
    ∃ j, i ≤ j ∧ r.action j = some (acts t) ∧ P (r.state j) := by
  by_contra hnever
  have hall : ∀ j, i ≤ j → P (r.state j) := by
    intro j hj
    induction j, hj using Nat.le_induction with
    | base => exact hi
    | succ j hj ih => exact hkeep j hj ih fun hact => hnever ⟨j, hj, hact, ih⟩
  obtain ⟨j, hj, hact⟩ := hfair t i fun j hj => hable _ (hall j hj)
  exact hnever ⟨j, hj, hact, hall j hj⟩

end Fairness

end EndlessRun

end VBitcoin
