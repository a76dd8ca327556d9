import VBitcoin.ActiveChain

/-!
**Block locators** (`CChain::GetLocator` in `chain.cpp`, `FindForkInGlobalIndex` in
`validation.cpp`) — a short list of blocks by which a peer, or an index after a restart, finds
where a branch leaves the active chain.
-/

namespace VBitcoin

open CBlockIndex CChain List

namespace CChain

def genesis (chain : CChain) : Option CBlockIndex := chain.operatorAt 0

def locatorLoop (chain : CChain) : Nat → Nat → List CBlockIndex → CBlockIndex → List CBlockIndex
  | 0, _, vHave, pindex => vHave ++ [pindex]
  | fuel + 1, nStep, vHave, pindex =>
    let vHave := vHave ++ [pindex]
    if pindex.nHeight = 0 then vHave
    else
      let nHeight := pindex.nHeight - nStep
      let next :=
        if chain.contains pindex then chain.operatorAt nHeight else pindex.getAncestor nHeight
      let nStep := if 10 < vHave.length then nStep * 2 else nStep
      match next with
      | none => vHave
      | some pindex => chain.locatorLoop fuel nStep vHave pindex

/-- The blocks for their hashes; null stands for the tip. -/
def getLocator (chain : CChain) (pindex : Option CBlockIndex) : List CBlockIndex :=
  match pindex.or chain.tip with
  | none => []
  | some pindex => chain.locatorLoop pindex.nHeight 1 [] pindex

def locatorLoopAt (chain : CChain) :
    Nat → Nat → List CBlockIndex → CBlockIndex → Run (List CBlockIndex)
  | 0, _, vHave, pindex => pure (vHave ++ [pindex])
  | fuel + 1, nStep, vHave, pindex =>
    let vHave := vHave ++ [pindex]
    if pindex.nHeight = 0 then pure vHave
    else do
      let nHeight := pindex.nHeight - nStep
      let next :=
        if chain.contains pindex then chain.operatorAt nHeight else pindex.getAncestor nHeight
      onlyIf (10 < vHave.length) (require (nStep * 2 < 2 ^ 31) .overflow)
      let nStep := if 10 < vHave.length then nStep * 2 else nStep
      match next with
      | none => pure vHave
      | some pindex => chain.locatorLoopAt fuel nStep vHave pindex

def getLocatorAt (chain : CChain) (pindex : Option CBlockIndex) : Run (List CBlockIndex) :=
  match pindex.or chain.tip with
  | none => pure []
  | some pindex => chain.locatorLoopAt pindex.nHeight 1 [] pindex

/-- `known` says whether `LookupBlockIndex` finds the block. -/
def findForkInGlobalIndex (chain : CChain) (known : CBlockIndex → Bool) :
    List CBlockIndex → Option CBlockIndex
  | [] => chain.genesis
  | pindex :: vHave =>
    if known pindex && chain.contains pindex then some pindex
    else if known pindex && pindex.getAncestorAt chain.height == chain.tip then chain.tip
    else chain.findForkInGlobalIndex known vHave

/-! ### One step back -/

variable {chain : CChain} {genesis t p q : CBlockIndex}

theorem getLocator_none (htip : chain.tip = some t) :
    chain.getLocator none = chain.getLocator (some t) := by
  simp only [getLocator, htip, Option.none_or, Option.some_or]

section Branch

variable (h : IsBranch chain.vChain chain.tip)

include h

theorem locator_next (p : CBlockIndex) {nHeight : Nat}
    (hle : nHeight ≤ p.nHeight) : ∃ q ≤ p, q.nHeight = nHeight ∧
      (if chain.contains p then chain.operatorAt nHeight else p.getAncestor nHeight) = some q := by
  obtain ⟨q, hqp, hheight⟩ := p.exists_le_nHeight hle
  refine ⟨q, hqp, hheight, ?_⟩
  split
  · rename_i hin
    obtain ⟨t, htip, hpt⟩ := (contains_iff h).mp hin
    exact (operatorAt_eq_some_iff h nHeight).mpr ⟨hheight, t, htip, hqp.trans hpt⟩
  · exact getAncestor_eq_some.mpr ⟨hqp, hheight⟩

/-! ### The blocks of a locator -/

/-- Down with every step, to genesis by its own condition. -/
theorem locatorLoop_spec (fuel : Nat) :
    ∀ (nStep : Nat) (vHave : List CBlockIndex) (p : CBlockIndex), 0 < nStep → p.nHeight ≤ fuel →
      ∃ rest, chain.locatorLoop fuel nStep vHave p = vHave ++ p :: rest ∧
        (p :: rest).Pairwise (fun a b => b < a) ∧ ∃ g ∈ (p :: rest).getLast?, g.nHeight = 0 := by
  induction fuel with
  | zero =>
    intro nStep vHave p _ hfuel
    exact ⟨[], rfl, pairwise_singleton _ p, p, rfl, Nat.le_zero.mp hfuel⟩
  | succ fuel ih =>
    intro nStep vHave p hstep hfuel
    by_cases hzero : p.nHeight = 0
    · simp only [locatorLoop, if_pos hzero]
      exact ⟨[], rfl, pairwise_singleton _ p, p, rfl, hzero⟩
    · obtain ⟨q, hqp, hheight, hnext⟩ := locator_next h p (Nat.sub_le p.nHeight nStep)
      simp only [locatorLoop, if_neg hzero, hnext]
      obtain ⟨rest, hloop, hdown, hlast⟩ := ih
        (if 10 < (vHave ++ [p]).length then nStep * 2 else nStep) (vHave ++ [p]) q
        (by split <;> omega) (by omega)
      refine ⟨q :: rest, by rw [hloop]; simp, ?_, by simpa using hlast⟩
      have hqp' : q < p := lt_of_le_of_ne hqp fun heq => by rw [heq] at hheight; omega
      refine pairwise_cons.mpr ⟨?_, hdown⟩
      intro a ha
      rcases mem_cons.mp ha with rfl | ha
      · exact hqp'
      · exact ((pairwise_cons.mp hdown).1 a ha).trans hqp'

theorem getLocator_spec (p : CBlockIndex) :
    ∃ rest, chain.getLocator (some p) = p :: rest ∧ (p :: rest).Pairwise (fun a b => b < a) ∧
      ∃ g ∈ (p :: rest).getLast?, g.nHeight = 0 :=
  locatorLoop_spec h p.nHeight 1 [] p Nat.one_pos (le_refl _)

theorem le_of_mem_getLocator (hq : q ∈ chain.getLocator (some p)) : q ≤ p := by
  obtain ⟨rest, hlocator, hdown, -⟩ := getLocator_spec h p
  rw [hlocator] at hq
  rcases mem_cons.mp hq with rfl | hq
  · exact le_refl _
  · exact ((pairwise_cons.mp hdown).1 q hq).le

/-- The first steps are of one block. -/
theorem mem_locatorLoop {k : Nat} :
    ∀ {fuel : Nat} {vHave : List CBlockIndex} {p : CBlockIndex}, vHave.length + k ≤ 10 →
      p.nHeight ≤ fuel → q ≤ p → p.nHeight = q.nHeight + k →
      q ∈ chain.locatorLoop fuel 1 vHave p := by
  induction k with
  | zero =>
    intro fuel vHave p _ hfuel hqp hheight
    obtain ⟨rest, hloop, -⟩ := locatorLoop_spec h fuel 1 vHave p Nat.one_pos hfuel
    rw [hloop, eq_of_le_of_nHeight hqp hheight.le]
    simp
  | succ k ih =>
    intro fuel vHave p hsize hfuel hqp hheight
    obtain ⟨fuel, rfl⟩ := Nat.exists_eq_add_one_of_ne_zero (n := fuel) (by omega)
    obtain ⟨a, hap, haheight, hnext⟩ := locator_next h p (Nat.sub_le p.nHeight 1)
    have hten : ¬ 10 < (vHave ++ [p]).length := by
      rw [length_append, length_singleton]
      omega
    simp only [locatorLoop, if_neg (show p.nHeight ≠ 0 by omega), hnext, if_neg hten]
    refine ih ?_ (by omega) (le_of_nHeight_le hqp hap (by omega)) (by omega)
    rw [length_append, length_singleton]
    omega

/-- A step is at most what lies between the block and the start, and one more. -/
theorem locatorLoopAt_eq {start : Nat} (hstart : start < 2 ^ 30) (fuel : Nat) :
    ∀ {nStep : Nat} (vHave : List CBlockIndex) {p : CBlockIndex},
      p.nHeight = 0 ∨ nStep + p.nHeight ≤ start + 1 →
      chain.locatorLoopAt fuel nStep vHave p = .ok (chain.locatorLoop fuel nStep vHave p) := by
  induction fuel with
  | zero => exact fun _ _ _ => rfl
  | succ fuel ih =>
    intro nStep vHave p hstep
    by_cases hzero : p.nHeight = 0
    · simp only [locatorLoopAt, locatorLoop, if_pos hzero]
      rfl
    · obtain ⟨q, -, hheight, hnext⟩ := locator_next h p (Nat.sub_le p.nHeight nStep)
      have hfits : onlyIf (10 < (vHave ++ [p]).length)
          (require (nStep * 2 < 2 ^ 31) .overflow : Run Unit) = .ok () :=
        onlyIf_eq_ok.mpr fun _ => require_eq_ok.mpr (decide_eq_true (by omega))
      simp only [locatorLoopAt, locatorLoop, if_neg hzero, hnext, hfits, ok_bind]
      apply ih
      split <;> omega

end Branch

/-! ### The search -/

theorem genesis_eq (h : IsBranch chain.vChain (some t)) (hgenesis : genesis.pprev = none)
    (hroot : genesis ≤ t) : chain.genesis = some genesis :=
  (operatorAt_eq_some_iff h 0).mpr ⟨nHeight_of_pprev_none hgenesis, t, rfl, hroot⟩

theorem getAncestorAt_height (h : IsBranch chain.vChain (some t)) :
    p.getAncestorAt chain.height = some t ↔ t ≤ p := by
  rw [height_eq h, getAncestorAt, if_neg (by omega), Int.toNat_natCast, getAncestor_eq_some_iff]

theorem findForkInGlobalIndex_spec (h : IsBranch chain.vChain (some t))
    (hgenesis : genesis.pprev = none) (hroot : genesis ≤ t) (hp : genesis ≤ p)
    {known : CBlockIndex → Bool} : ∀ {vHave : List CBlockIndex},
      vHave.Pairwise (fun a b => b < a) → (∀ q ∈ vHave, q ≤ p ∧ known q = true) →
      ∃ b, chain.findForkInGlobalIndex known vHave = some b ∧ b ≤ t ∧ b ≤ p ∧
        ∀ q ∈ vHave, q ≤ t → q ≤ b
  | [], _, _ => ⟨genesis, genesis_eq h hgenesis hroot, hroot, hp, by simp⟩
  | pindex :: vHave, hdown, hbelow => by
    obtain ⟨hfirst, hdown⟩ := pairwise_cons.mp hdown
    obtain ⟨⟨hle, hknown⟩, hbelow⟩ := forall_mem_cons.mp hbelow
    have hin : chain.contains pindex = true ↔ pindex ≤ t := by simp [contains_iff h]
    simp only [findForkInGlobalIndex, hknown, Bool.true_and, beq_iff_eq, tip_eq h,
      getAncestorAt_height h, hin]
    split
    · rename_i hpt
      exact ⟨pindex, rfl, hpt, hle,
        forall_mem_cons.mpr ⟨fun _ => le_refl _, fun q hq _ => (hfirst q hq).le⟩⟩
    split
    · -- the whole active chain is below the block
      rename_i htp
      exact ⟨t, rfl, le_refl t, htp.trans hle, fun q _ hqt => hqt⟩
    · rename_i hnot _
      obtain ⟨b, hfound, hbt, hbp, hmax⟩ :=
        findForkInGlobalIndex_spec h hgenesis hroot hp hdown hbelow
      exact ⟨b, hfound, hbt, hbp,
        forall_mem_cons.mpr ⟨fun hpt => absurd hpt hnot, hmax⟩⟩

/-- **Locators find the fork**: the search ends at the highest block of the locator in the active
    chain, or at the fork itself among the last ten blocks; the steps fit into an `int`. -/
theorem locator_finds_fork (h : IsBranch chain.vChain (some t)) (hgenesis : genesis.pprev = none)
    (hroot : genesis ≤ t) (hp : genesis ≤ p) {known : CBlockIndex → Bool}
    (hknown : ∀ a ≤ p, known a = true) :
    (chain.getLocator (some p)).head? = some p ∧
    (chain.getLocator (some p)).Pairwise (fun a b => b ≤ a ∧ b.nHeight < a.nHeight) ∧
    (chain.getLocator (some p)).getLast? = some genesis ∧
    (∃ b, chain.findForkInGlobalIndex known (chain.getLocator (some p)) = some b ∧
      b ≤ t ∧ b ≤ p ∧
      (∀ q ∈ chain.getLocator (some p), q ≤ t → q.nHeight ≤ b.nHeight) ∧
      ∀ f ≤ p, f ≤ t → (∀ a ≤ p, a ≤ t → a ≤ f) → p.nHeight ≤ f.nHeight + 10 → b = f) ∧
    (p.nHeight < 2 ^ 30 → chain.getLocatorAt (some p) = .ok (chain.getLocator (some p))) := by
  have hbranch : IsBranch chain.vChain chain.tip := (tip_eq h).symm ▸ h
  have hbelow : ∀ q ∈ chain.getLocator (some p), q ≤ p := fun q => le_of_mem_getLocator hbranch
  have hrecent : ∀ f ≤ p, p.nHeight ≤ f.nHeight + 10 → f ∈ chain.getLocator (some p) := by
    intro f hf hten
    have := nHeight_le hf
    exact mem_locatorLoop hbranch (k := p.nHeight - f.nHeight) (by simpa using by omega) (le_refl _)
      hf (by omega)
  have hsteps : p.nHeight < 2 ^ 30 →
      chain.getLocatorAt (some p) = .ok (chain.getLocator (some p)) :=
    fun hheight => locatorLoopAt_eq hbranch hheight p.nHeight [] (.inr (Nat.add_comm _ _).le)
  obtain ⟨rest, hlocator, hdown, g, hlast, hzero⟩ := getLocator_spec hbranch p
  rw [hlocator] at hbelow hrecent hsteps ⊢
  obtain ⟨b, hfound, hbt, hbp, hmax⟩ := findForkInGlobalIndex_spec h hgenesis hroot hp hdown
    fun q hq => ⟨hbelow q hq, hknown q (hbelow q hq)⟩
  refine ⟨rfl, hdown.imp ?_, ?_, ⟨b, hfound, hbt, hbp, fun q hq hqt => nHeight_le (hmax q hq hqt),
    fun f hfp hft hfork hten => ?_⟩, hsteps⟩
  · intro a b hlt
    exact ⟨hlt.le, lt_of_not_ge fun hge => hlt.ne (eq_of_le_of_nHeight hlt.le hge)⟩
  · have hg := hbelow g (mem_of_getLast? hlast)
    rw [hlast, eq_of_nHeight_eq hg hp (hzero.trans (nHeight_of_pprev_none hgenesis).symm)]
  · exact le_antisymm (hfork b hbp hbt) (hmax f (hrecent f hfp hten) hft)

end CChain

namespace Regtest

def syncGenesis : CBlockIndex := ⟨⟨0, 1600000000⟩, []⟩

def syncLeft : CBlockIndex := ⟨⟨1, 1600000600⟩, [syncGenesis.entry]⟩

def syncRight : CBlockIndex := ⟨⟨2, 1600000600⟩, [syncGenesis.entry]⟩

theorem syncRight_forks_at_root :
    ∃ b, (CChain.setTip {} (some syncLeft)).findForkInGlobalIndex (fun _ => true)
      ((CChain.setTip {} (some syncLeft)).getLocator (some syncRight)) = some b ∧
      b ≤ syncLeft ∧ b ≤ syncRight := by
  have hknown : ∀ a ≤ syncRight, (fun _ => true : CBlockIndex → Bool) a = true := fun _ _ => rfl
  obtain ⟨-, -, -, ⟨b, hfound, hleft, hright, -⟩, -⟩ := CChain.locator_finds_fork
    (isBranch_empty.setTip (some syncLeft)) (show syncGenesis.pprev = none from rfl) (by decide)
    (by decide) hknown
  exact ⟨b, hfound, hleft, hright⟩

end Regtest

end VBitcoin
