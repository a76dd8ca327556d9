import VBitcoin.BlockTree

/-!
**Median time past never goes back** — times of blocks may decrease, but each is greater than
the median of the last eleven.  That is enough: an entry of a sorted list is at least `m`
exactly when few enough entries are below `m`, and a new time above the old median adds none
of those.
-/

namespace VBitcoin

open List

/-! ### Ranks in a sorted list -/

section Rank

variable {α : Type*} [LinearOrder α]

theorem le_getElem_iff_countP_le {l : List α} (hsorted : l.Pairwise (· ≤ ·)) (m : α) :
    ∀ {j : Nat} (hj : j < l.length), m ≤ l[j] ↔ l.countP (· < m) ≤ j := by
  induction l with
  | nil =>
    intro j hj
    cases hj
  | cons x xs ih =>
    intro j hj
    obtain ⟨hx, hxs⟩ := pairwise_cons.mp hsorted
    by_cases hlt : x < m
    · rw [countP_cons_of_pos (by simpa using hlt)]
      cases j with
      | zero => simpa using hlt
      | succ j =>
        rw [getElem_cons_succ, ih hxs]
        omega
    · -- everything is at least `m` from here on
      have hge : ∀ y ∈ x :: xs, m ≤ y := by
        intro y hy
        rcases mem_cons.mp hy with rfl | hmem
        · exact le_of_not_gt hlt
        · exact (le_of_not_gt hlt).trans (hx y hmem)
      have hcount : (x :: xs).countP (· < m) = 0 := by
        apply countP_eq_zero.mpr
        intro y hy
        simpa using hge y hy
      rw [hcount]
      exact iff_of_true (hge _ (getElem_mem hj)) (Nat.zero_le j)

theorem le_getD_insertionSort_iff (l : List α) (m d : α) {j : Nat} (hj : j < l.length) :
    m ≤ (l.insertionSort (· ≤ ·)).getD j d ↔ l.countP (· < m) ≤ j := by
  have hlength : j < (l.insertionSort (· ≤ ·)).length := by
    rwa [length_insertionSort]
  rw [getD_eq_getElem?_getD, getElem?_eq_getElem hlength, Option.getD_some,
    le_getElem_iff_countP_le (pairwise_insertionSort (· ≤ ·) l) m hlength,
    (perm_insertionSort (· ≤ ·) l).countP_eq]

end Rank

namespace CBlockIndex

/-! ### Medians along a branch -/

def medianTimes (pindex : CBlockIndex) : List Nat := (pindex.path.take 11).map fun e => e.nTime.toNat

variable (b : CBlockIndex)

theorem length_medianTimes : b.medianTimes.length = min 11 (b.nHeight + 1) := by
  rw [medianTimes, length_map, length_take, length_path]

theorem le_getMedianTimePast_iff (m : Nat) :
    m ≤ b.getMedianTimePast ↔ b.medianTimes.countP (· < m) ≤ b.medianTimes.length / 2 := by
  have hpos : b.medianTimes.length / 2 < b.medianTimes.length := by
    have := b.length_medianTimes
    omega
  exact le_getD_insertionSort_iff b.medianTimes m 0 hpos

/-- Times exceed the median time past of the parent. -/
def TimesOk : Prop :=
  ∀ a ≤ b, ∀ p, a.pprev = some p → p.getMedianTimePast < a.entry.nTime.toNat

variable {b p : CBlockIndex}

theorem TimesOk.of_le {a : CBlockIndex} (h : TimesOk b) (hle : a ≤ b) : TimesOk a :=
  fun c hc => h c (hc.trans hle)

theorem timesOk_genesis (h : b.pprev = none) : TimesOk b := by
  intro a ha p hp
  rw [eq_of_le_of_pprev_none ha h, h] at hp
  cases hp

theorem TimesOk.child (h : TimesOk p) (hp : b.pprev = some p)
    (htime : p.getMedianTimePast < b.entry.nTime.toNat) : TimesOk b := by
  intro a ha q hq
  rcases (le_iff_eq_or_le_pprev hp).mp ha with rfl | hle
  · rw [hp] at hq
    cases hq
    exact htime
  · exact h a hle q hq

theorem getMedianTimePast_pprev_le (hp : b.pprev = some p)
    (htime : p.getMedianTimePast < b.entry.nTime.toNat) :
    p.getMedianTimePast ≤ b.getMedianTimePast := by
  have hrank := (le_getMedianTimePast_iff p p.getMedianTimePast).mp (le_refl _)
  have hheight := nHeight_pprev hp
  rw [le_getMedianTimePast_iff]
  have htimes : b.medianTimes =
      b.entry.nTime.toNat :: (p.path.take 10).map fun e => e.nTime.toNat := by
    rw [medianTimes, path, pprev_eq_some.mp hp]
    rfl
  -- the new time is above, and the window of the parent only loses its oldest time
  have hcount : b.medianTimes.countP (· < p.getMedianTimePast) ≤
      p.medianTimes.countP (· < p.getMedianTimePast) := by
    rw [htimes, countP_cons_of_neg (by simpa using htime.le)]
    apply List.Sublist.countP_le
    exact (take_sublist_take_left (by omega)).map _
  rw [length_medianTimes] at hrank ⊢
  omega

theorem getMedianTimePast_mono (h : TimesOk b) :
    ∀ {a : CBlockIndex}, a ≤ b → a.getMedianTimePast ≤ b.getMedianTimePast := by
  induction b using induction_pprev with
  | step b ih =>
    intro a ha
    rcases ha.eq_or_lt with rfl | hlt
    · exact le_refl _
    · obtain ⟨p, hp⟩ := exists_pprev_of_lt hlt
      exact (ih p hp (h.of_le (pprev_le hp)) (le_pprev_of_lt hlt hp)).trans
        (getMedianTimePast_pprev_le hp (h b (le_refl b) p hp))

/-- **Median time past never decreases**, from a block to its child or to the tip of the branch. -/
theorem medianTimePast_never_decreases {b : CBlockIndex} (h : TimesOk b) :
    (∀ a ≤ b, ∀ p, a.pprev = some p → p.getMedianTimePast ≤ a.getMedianTimePast) ∧
      ∀ a ≤ b, a.getMedianTimePast ≤ b.getMedianTimePast :=
  ⟨fun a ha p hp => getMedianTimePast_pprev_le hp (h a ha p hp),
    fun _ ha => getMedianTimePast_mono h ha⟩

theorem medianTimePast_with_time_going_back :
    (⟨⟨2, 40⟩, [⟨1, 20⟩, ⟨0, 10⟩]⟩ : CBlockIndex).getMedianTimePast ≤
      (⟨⟨3, 30⟩, [⟨2, 40⟩, ⟨1, 20⟩, ⟨0, 10⟩]⟩ : CBlockIndex).getMedianTimePast :=
  (medianTimePast_never_decreases
    ((((timesOk_genesis rfl).child (b := ⟨⟨1, 20⟩, [⟨0, 10⟩]⟩) rfl (by decide)).child
      (b := ⟨⟨2, 40⟩, [⟨1, 20⟩, ⟨0, 10⟩]⟩) rfl (by decide)).child
        (b := ⟨⟨3, 30⟩, [⟨2, 40⟩, ⟨1, 20⟩, ⟨0, 10⟩]⟩) rfl (by decide))).1 _ (le_refl _) _ rfl

end CBlockIndex

end VBitcoin
