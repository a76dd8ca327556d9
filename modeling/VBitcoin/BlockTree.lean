import VBitcoin.Environment

/-!
**The tree of blocks** — a `CBlockIndex` carries its ancestors, so the blocks of an
index form a tree by themselves: `a ≤ b` says that `a` is `b` or one of its ancestors.
The pointer walks of the source (`pprev`, `GetAncestor`, `CChain::Contains`) are
statements about this order.
-/

namespace VBitcoin

namespace CBlockIndex

def path (pindex : CBlockIndex) : List IndexEntry := pindex.entry :: pindex.ancestors

theorem path_injective : Function.Injective path := by
  intro a b h
  cases a
  cases b
  simpa [path] using h

@[simp] theorem length_path (pindex : CBlockIndex) : pindex.path.length = pindex.nHeight + 1 := rfl

/-- Being a block or one of its ancestors. -/
instance : PartialOrder CBlockIndex where
  le a b := a.path <:+ b.path
  le_refl a := List.suffix_refl a.path
  le_trans _ _ _ hab hbc := hab.trans hbc
  le_antisymm _ _ hab hba := path_injective (hab.eq_of_length (hab.length_le.antisymm hba.length_le))

variable {a b p : CBlockIndex}

theorem le_def : a ≤ b ↔ a.path <:+ b.path := Iff.rfl

instance (a b : CBlockIndex) : Decidable (a ≤ b) := inferInstanceAs (Decidable (a.path <:+ b.path))

theorem nHeight_le (h : a ≤ b) : a.nHeight ≤ b.nHeight := by
  simpa using (le_def.mp h).length_le

theorem eq_of_le_of_nHeight (h : a ≤ b) (hheight : b.nHeight ≤ a.nHeight) : a = b := by
  apply path_injective
  apply (le_def.mp h).eq_of_length
  simpa using (nHeight_le h).antisymm hheight

/-- Two ancestors of one block are ancestors of each other. -/
theorem le_or_le {c : CBlockIndex} (ha : a ≤ c) (hb : b ≤ c) : a ≤ b ∨ b ≤ a :=
  List.suffix_or_suffix_of_suffix ha hb

theorem le_of_nHeight_le {c : CBlockIndex} (ha : a ≤ c) (hb : b ≤ c)
    (h : a.nHeight ≤ b.nHeight) : a ≤ b :=
  List.suffix_of_suffix_length_le ha hb (by simpa using h)

/-! ### Parents -/

theorem pprev_eq_some : b.pprev = some p ↔ b.ancestors = p.path := by
  unfold pprev path
  cases p
  split <;> simp_all

theorem pprev_eq_none : b.pprev = none ↔ b.ancestors = [] := by
  unfold pprev
  split <;> simp_all

theorem pprev_le (h : b.pprev = some p) : p ≤ b := by
  rw [le_def, ← pprev_eq_some.mp h]
  exact List.suffix_cons b.entry b.ancestors

theorem nHeight_pprev (h : b.pprev = some p) : b.nHeight = p.nHeight + 1 := by
  rw [← length_path, ← pprev_eq_some.mp h]
  rfl

theorem pprev_lt (h : b.pprev = some p) : p < b := by
  refine lt_of_le_of_ne (pprev_le h) ?_
  rintro rfl
  have := nHeight_pprev h
  omega

theorem le_pprev_of_lt (h : a < b) (hp : b.pprev = some p) : a ≤ p := by
  rcases List.suffix_cons_iff.mp (le_def.mp h.le) with heq | hsuffix
  · exact absurd (path_injective heq) h.ne
  · rwa [pprev_eq_some.mp hp] at hsuffix

theorem nHeight_of_pprev_none (h : b.pprev = none) : b.nHeight = 0 := by
  rw [nHeight, pprev_eq_none.mp h]
  rfl

theorem exists_pprev_of_lt (h : a < b) : ∃ p, b.pprev = some p := by
  cases hp : b.pprev with
  | some p => exact ⟨p, rfl⟩
  | none =>
    have hheight := nHeight_of_pprev_none hp
    exact absurd (eq_of_le_of_nHeight h.le (by omega)) h.ne

theorem le_iff_eq_or_le_pprev (hp : b.pprev = some p) : a ≤ b ↔ a = b ∨ a ≤ p := by
  constructor
  · intro h
    rcases h.eq_or_lt with heq | hlt
    · exact Or.inl heq
    · exact Or.inr (le_pprev_of_lt hlt hp)
  · rintro (rfl | h)
    · exact le_refl _
    · exact h.trans (pprev_le hp)

theorem eq_of_le_of_pprev_none (h : a ≤ b) (hp : b.pprev = none) : a = b := by
  rcases h.eq_or_lt with heq | hlt
  · exact heq
  · obtain ⟨p, hsome⟩ := exists_pprev_of_lt hlt
    simp [hsome] at hp

/-- What holds of genesis and passes from parents to children. -/
theorem induction_pprev {P : CBlockIndex → Prop}
    (step : ∀ b, (∀ p, b.pprev = some p → P p) → P b) (b : CBlockIndex) : P b := by
  obtain ⟨entry, ancestors⟩ := b
  induction ancestors generalizing entry with
  | nil => exact step _ (by simp [pprev])
  | cons parent rest ih =>
    apply step
    intro p hp
    cases hp
    exact ih parent

/-! ### `GetAncestor` and `Contains` -/

theorem getAncestor_eq_some_iff : b.getAncestor a.nHeight = some a ↔ a ≤ b := by
  unfold getAncestor
  constructor
  · intro h
    split at h
    · cases h
    · split at h
      · cases h
      · rename_i entry ancestors hdrop
        cases h
        rw [le_def, path, ← hdrop]
        exact List.drop_suffix _ _
  · intro h
    rw [if_neg (Nat.not_lt.mpr (nHeight_le h))]
    have hdrop : (b.entry :: b.ancestors).drop (b.nHeight - a.nHeight) = a.path := by
      have hdrop := List.suffix_iff_eq_drop.mp (le_def.mp h)
      rw [length_path, length_path, Nat.add_sub_add_right] at hdrop
      exact hdrop.symm
    rw [hdrop]
    rfl

end CBlockIndex

/-- `CChain::Contains`; the chain is given by its tip. -/
def chainContains (tip : Option CBlockIndex) (pindex : CBlockIndex) : Bool :=
  tip.bind (fun tip => tip.getAncestor pindex.nHeight) == some pindex

@[simp] theorem chainContains_some {tip pindex : CBlockIndex} :
    chainContains (some tip) pindex = true ↔ pindex ≤ tip := by
  simp [chainContains, CBlockIndex.getAncestor_eq_some_iff]

@[simp] theorem chainContains_none (pindex : CBlockIndex) : chainContains none pindex = false := rfl

end VBitcoin
