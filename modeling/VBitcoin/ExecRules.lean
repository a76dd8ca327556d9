import VBitcoin.ExceptRules

/-!
**Rules for computations that may stop and leave a state behind** — programs in `Exec ε σ`,
read backwards from a run that returned (`runOn_bind_eq_ok`), against a second program that
has to return whenever the first one does (`Implies`), and by a counter of the state, which a
run that stops has raised too (`Costs`).
-/

namespace VBitcoin

/-- Programs that stop with an `ε` or return, on a state `σ` that survives both. -/
abbrev Exec (ε σ : Type) := ExceptT ε (StateM σ)

variable {ε σ τ α β : Type}

/-! ### When one `Except` program returns, so does another -/

def OkImplies (x y : Except ε α) : Prop := ∀ a, x = .ok a → y = .ok a

theorem OkImplies.refl (x : Except ε α) : OkImplies x x := fun _ h => h

theorem okImplies_bind {x y : Except ε α} {f g : α → Except ε β} (hxy : OkImplies x y)
    (hfg : ∀ a, OkImplies (f a) (g a)) : OkImplies (x >>= f) (y >>= g) := by
  intro b h
  obtain ⟨a, hx, hf⟩ := bind_eq_ok.mp h
  exact bind_eq_ok.mpr ⟨a, hxy a hx, hfg a b hf⟩

theorem okImplies_require {c d : Bool} {e e' : ε} (h : c = true → d = true) :
    OkImplies (require c e) (require d e') := by
  intro a hc
  exact require_eq_ok.mpr (h (require_eq_ok.mp hc))

theorem okImplies_ite {c : Prop} [Decidable c] {x y x' y' : Except ε α} (hpos : OkImplies x y)
    (hneg : OkImplies x' y') : OkImplies (if c then x else x') (if c then y else y') := by
  by_cases hc : c
  · rw [if_pos hc, if_pos hc]
    exact hpos
  · rw [if_neg hc, if_neg hc]
    exact hneg

namespace Exec

/-! ### Running a program -/

/-- Run from a state: the outcome and the state it leaves. -/
def runOn (x : Exec ε σ α) (s : σ) : Except ε α × σ := StateT.run (ExceptT.run x) s

@[simp] theorem runOn_pure (a : α) (s : σ) : runOn (pure a : Exec ε σ α) s = (.ok a, s) := rfl

@[simp] theorem runOn_lift (x : Except ε α) (s : σ) :
    runOn (liftM x : Exec ε σ α) s = (x, s) := rfl

@[simp] theorem runOn_state (x : StateM σ α) (s : σ) :
    runOn (liftM x : Exec ε σ α) s = (.ok (x.run s).1, (x.run s).2) := rfl

theorem runOn_bind (x : Exec ε σ α) (f : α → Exec ε σ β) (s : σ) :
    runOn (x >>= f) s =
      match runOn x s with
      | (.ok a, s') => runOn (f a) s'
      | (.error e, s') => (.error e, s') := by
  rcases hx : runOn x s with ⟨outcome, s'⟩
  change x s = (outcome, s') at hx
  change (ExceptT.bindCont f (x s).1 (x s).2 : Except ε β × σ) = _
  rw [hx]
  cases outcome <;> rfl

variable {x : Exec ε σ α} {f : α → Exec ε σ β} {s t : σ} {b : β} {a : α} {y : Exec ε τ α}
  {P : α → β → Prop} {n : Nat}

theorem runOn_bind_eq_ok :
    runOn (x >>= f) s = (.ok b, t) ↔
      ∃ a s', runOn x s = (.ok a, s') ∧ runOn (f a) s' = (.ok b, t) := by
  rw [runOn_bind]
  rcases runOn x s with ⟨outcome, s'⟩
  cases outcome with
  | error e => simp
  | ok a => simp

theorem runOn_lift_eq_ok {x : Except ε α} :
    runOn (liftM x : Exec ε σ α) s = (.ok a, t) ↔ x = .ok a ∧ s = t := by
  rw [runOn_lift, Prod.mk.injEq]

theorem runOn_lift_bind_eq_ok {x : Except ε α} :
    runOn (liftM x >>= f) s = (.ok b, t) ↔ ∃ a, x = .ok a ∧ runOn (f a) s = (.ok b, t) := by
  simp only [runOn_bind_eq_ok, runOn_lift_eq_ok]
  exact ⟨fun ⟨a, _, ⟨hx, rfl⟩, h⟩ => ⟨a, hx, h⟩, fun ⟨a, hx, h⟩ => ⟨a, s, ⟨hx, rfl⟩, h⟩⟩

theorem runOn_pure_eq_ok {b : α} : runOn (pure a : Exec ε σ α) s = (.ok b, t) ↔ a = b ∧ s = t := by
  rw [runOn_pure, Prod.mk.injEq, Except.ok.injEq]

/-! ### When one program returns, so does another -/

def Implies (R : σ → τ → Prop) (x : Exec ε σ α) (y : Exec ε τ α) : Prop :=
  ∀ s t, R s t → ∀ a s', runOn x s = (.ok a, s') → ∃ t', runOn y t = (.ok a, t') ∧ R s' t'

variable {R : σ → τ → Prop}

theorem implies_lift {x y : Except ε α} (h : OkImplies x y) :
    Implies R (liftM x : Exec ε σ α) (liftM y) := by
  intro s t hst a s' hx
  obtain ⟨hval, rfl⟩ := runOn_lift_eq_ok.mp hx
  exact ⟨t, runOn_lift_eq_ok.mpr ⟨h a hval, rfl⟩, hst⟩

theorem implies_state {x : StateM σ α} {y : StateM τ α}
    (h : ∀ s t, R s t → (x.run s).1 = (y.run t).1 ∧ R (x.run s).2 (y.run t).2) :
    Implies R (liftM x : Exec ε σ α) (liftM y) := by
  intro s t hst a s' hx
  obtain ⟨hval, hnext⟩ := h s t hst
  rw [runOn_state, Prod.mk.injEq, Except.ok.injEq] at hx
  obtain ⟨rfl, rfl⟩ := hx
  exact ⟨(y.run t).2, by rw [runOn_state, hval], hnext⟩

theorem implies_pure (a : α) : Implies R (pure a : Exec ε σ α) (pure a) := by
  intro s t hst b s' hx
  obtain ⟨rfl, rfl⟩ := runOn_pure_eq_ok.mp hx
  exact ⟨t, rfl, hst⟩

theorem implies_bind {g : α → Exec ε τ β} (hxy : Implies R x y) (hfg : ∀ a, Implies R (f a) (g a)) :
    Implies R (x >>= f) (y >>= g) := by
  intro s t hst b s' hx
  obtain ⟨a, mid, hx, hf⟩ := runOn_bind_eq_ok.mp hx
  obtain ⟨tmid, hy, hmid⟩ := hxy s t hst a mid hx
  obtain ⟨t', hg, hst'⟩ := hfg a mid tmid hmid b s' hf
  exact ⟨t', runOn_bind_eq_ok.mpr ⟨a, tmid, hy, hg⟩, hst'⟩

theorem implies_ite {c : Prop} [Decidable c] {x' : Exec ε σ α} {y' : Exec ε τ α}
    (hpos : Implies R x y) (hneg : Implies R x' y') :
    Implies R (if c then x else x') (if c then y else y') := by
  by_cases hc : c
  · rw [if_pos hc, if_pos hc]
    exact hpos
  · rw [if_neg hc, if_neg hc]
    exact hneg

/-! ### Up to a relation on the values -/

/-- As `Implies`, but the values only have to be related. -/
def ImpliesUpTo (R : σ → τ → Prop) (P : α → β → Prop) (x : Exec ε σ α) (y : Exec ε τ β) : Prop :=
  ∀ s t, R s t → ∀ a s', runOn x s = (.ok a, s') → ∃ b t', runOn y t = (.ok b, t') ∧ R s' t' ∧ P a b

theorem Implies.upTo {P : α → α → Prop} (hP : ∀ a, P a a)
    (h : Implies R x y) : ImpliesUpTo R P x y := by
  intro s t hst a s' hx
  obtain ⟨t', hy, hst'⟩ := h s t hst a s' hx
  exact ⟨a, t', hy, hst', hP a⟩

theorem impliesUpTo_pure (h : P a b) : ImpliesUpTo R P (pure a : Exec ε σ α) (pure b) := by
  intro s t hst c s' hx
  obtain ⟨rfl, rfl⟩ := runOn_pure_eq_ok.mp hx
  exact ⟨b, t, rfl, hst, h⟩

theorem impliesUpTo_skip (h : ∀ s t, R s t → ∀ a s', runOn x s = (.ok a, s') → R s' t ∧ P a b) :
    ImpliesUpTo R P x (pure b) := by
  intro s t hst a s' hx
  obtain ⟨hst', hab⟩ := h s t hst a s' hx
  exact ⟨b, t, rfl, hst', hab⟩

theorem impliesUpTo_bind {γ δ : Type} {Q : γ → δ → Prop}
    {y : Exec ε τ β} {f : α → Exec ε σ γ} {g : β → Exec ε τ δ} (hxy : ImpliesUpTo R P x y)
    (hfg : ∀ a b, P a b → ImpliesUpTo R Q (f a) (g b)) :
    ImpliesUpTo R Q (x >>= f) (y >>= g) := by
  intro s t hst c s' hx
  obtain ⟨a, mid, hx, hf⟩ := runOn_bind_eq_ok.mp hx
  obtain ⟨b, tmid, hy, hmid, hab⟩ := hxy s t hst a mid hx
  obtain ⟨d, t', hg, hst', hcd⟩ := hfg a b hab mid tmid hmid c s' hf
  exact ⟨d, t', runOn_bind_eq_ok.mpr ⟨b, tmid, hy, hg⟩, hst', hcd⟩

theorem Implies.bind_upTo {γ δ : Type} {Q : γ → δ → Prop}
    {f : α → Exec ε σ γ} {g : α → Exec ε τ δ} (hxy : Implies R x y)
    (hfg : ∀ a, ImpliesUpTo R Q (f a) (g a)) : ImpliesUpTo R Q (x >>= f) (y >>= g) := by
  apply impliesUpTo_bind (hxy.upTo (@rfl α))
  rintro a _ rfl
  exact hfg a

/-! ### Counting -/

/-- A run raises the counter by at most `n`, whether it returns or stops. -/
def Costs (count : σ → Nat) (n : Nat) (x : Exec ε σ α) : Prop :=
  ∀ s, count (runOn x s).2 ≤ count s + n

variable {count : σ → Nat}

theorem Costs.of_run (h : Costs count n x) {s' : σ}
    {outcome : Except ε α} (hrun : runOn x s = (outcome, s')) : count s' ≤ count s + n := by
  have hle := h s
  rw [hrun] at hle
  exact hle

theorem Costs.mono {m : Nat} (h : Costs count m x) (hmn : m ≤ n) :
    Costs count n x := fun s => Nat.le_trans (h s) (Nat.add_le_add_left hmn _)

theorem costs_lift (n : Nat) (x : Except ε α) : Costs count n (liftM x : Exec ε σ α) := by
  intro s
  rw [runOn_lift]
  exact Nat.le_add_right _ _

theorem costs_pure (n : Nat) (a : α) : Costs count n (pure a : Exec ε σ α) := by
  intro s
  rw [runOn_pure]
  exact Nat.le_add_right _ _

theorem costs_state {x : StateM σ α} (h : ∀ s, count (x.run s).2 ≤ count s + n) :
    Costs count n (liftM x : Exec ε σ α) := h

theorem costs_bind {m : Nat} (hx : Costs count m x)
    (hf : ∀ s a s', runOn x s = (.ok a, s') → Costs count n (f a)) :
    Costs count (m + n) (x >>= f) := by
  intro s
  have hfirst := hx s
  rw [runOn_bind]
  rcases hrun : runOn x s with ⟨outcome, s'⟩
  rw [hrun] at hfirst
  cases outcome with
  | error e => exact Nat.le_trans hfirst (Nat.add_le_add_left (Nat.le_add_right m n) _)
  | ok a =>
    have hsecond := hf s a s' hrun s'
    dsimp only at hfirst hsecond ⊢
    omega

theorem costs_lift_bind {x : Except ε α}
    (hf : ∀ a, x = .ok a → Costs count n (f a)) : Costs count n (liftM x >>= f) := by
  rw [← Nat.zero_add n]
  exact costs_bind (costs_lift 0 x) fun _ a _ hrun => hf a (runOn_lift_eq_ok.mp hrun).1

theorem costs_bind_free (hx : Costs count n x)
    (hf : ∀ a, Costs count 0 (f a)) : Costs count n (x >>= f) :=
  costs_bind hx fun _ a _ _ => hf a

theorem costs_ite {c : Prop} [Decidable c] {y : Exec ε σ α}
    (hpos : c → Costs count n x) (hneg : ¬c → Costs count n y) :
    Costs count n (if c then x else y) := by
  by_cases hc : c
  · rw [if_pos hc]
    exact hpos hc
  · rw [if_neg hc]
    exact hneg hc

end Exec

end VBitcoin
