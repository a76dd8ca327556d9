import Mathlib

/-!
**Runs that stay good as long as every step meets a condition** — `always_iff_meets` is the
exact statement about whole runs, from three facts about one step: an invariant implies the
property, a step that meets the condition keeps the invariant, and a step that does not leads
to a bad state.
-/

namespace VBitcoin.GuardedRuns

variable {σ ε : Type} (step : ε → σ → Option σ)

def run : List ε → σ → Option σ
  | [], s => some s
  | event :: events, s => (step event s).bind (run events)

/-- In every state; the run ends at an event that cannot happen. -/
def Always (Good : σ → Prop) : σ → List ε → Prop
  | s, [] => Good s
  | s, event :: events => Good s ∧ ∀ s', step event s = some s' → Always Good s' events

def AllMeet (Meets : σ → ε → Prop) : σ → List ε → Prop
  | _, [] => True
  | s, event :: events =>
    Meets s event ∧ ∀ s', step event s = some s' → AllMeet Meets s' events

variable {step} {Good Inv : σ → Prop} {Meets : σ → ε → Prop} {Legal : ε → Prop}

theorem Always.first {s : σ} {events : List ε} (h : Always step Good s events) : Good s := by
  cases events with
  | nil => exact h
  | cons event events => exact h.1

theorem Always.run {s' : σ} : ∀ {events : List ε} {s : σ}, Always step Good s events →
    run step events s = some s' → Good s'
  | [], s, h, hrun => by
    obtain rfl := Option.some.inj hrun
    exact h
  | event :: events, s, h, hrun => by
    obtain ⟨next, hnext, hrest⟩ := Option.bind_eq_some_iff.mp hrun
    exact Always.run (h.2 next hnext) hrest

/-- **A run is good throughout just when all its steps meet the condition.** -/
theorem always_iff_meets (hgood : ∀ s, Inv s → Good s)
    (hkeep : ∀ s event s', Inv s → Legal event → Meets s event → step event s = some s' → Inv s')
    (hbreak : ∀ s event, Inv s → Legal event → ¬ Meets s event →
      ∃ s', step event s = some s' ∧ ¬ Good s') :
    ∀ {events : List ε} {s : σ}, Inv s → (∀ event ∈ events, Legal event) →
      (Always step Good s events ↔ AllMeet step Meets s events)
  | [], s, hs, _ => iff_of_true (hgood s hs) trivial
  | event :: events, s, hs, hlegal => by
    have hevent := hlegal event List.mem_cons_self
    have hrest : ∀ e ∈ events, Legal e := (List.forall_mem_cons.mp hlegal).2
    constructor
    · rintro ⟨-, hnext⟩
      have hmeets : Meets s event := by
        by_contra hviolates
        obtain ⟨s', hstep, hbad⟩ := hbreak s event hs hevent hviolates
        exact hbad (hnext s' hstep).first
      refine ⟨hmeets, fun s' hstep => ?_⟩
      exact (always_iff_meets hgood hkeep hbreak (hkeep s event s' hs hevent hmeets hstep)
        hrest).mp (hnext s' hstep)
    · rintro ⟨hmeets, hnext⟩
      refine ⟨hgood s hs, fun s' hstep => ?_⟩
      exact (always_iff_meets hgood hkeep hbreak (hkeep s event s' hs hevent hmeets hstep)
        hrest).mpr (hnext s' hstep)

end VBitcoin.GuardedRuns
