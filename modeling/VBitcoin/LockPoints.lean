import VBitcoin.ActiveChain
import VBitcoin.MedianTimePast
import VBitcoin.TimeLocks

/-!
**Cached lock points** (`validation.cpp`) — the mempool remembers the last invalid height and
time of a transaction (BIP68), and with them the highest block with a coin whose input has a
lock.  As long as that block is on the active chain, so are all the others that the locks
depend on.
-/

namespace VBitcoin

open CBlockIndex List

/-! ### The code -/

/-- The height of coins that are only in the memory pool. -/
def MEMPOOL_HEIGHT : Nat := 0x7FFFFFFF

structure LockPoints where
  height : Int := 0
  time : Int := 0
  /-- The highest block with a coin whose input has a lock. -/
  maxInputBlock : Option CBlockIndex := none
  deriving DecidableEq, Repr

def CTxIn.lockDisabled (txin : CTxIn) : Bool := txin.nSequence.toNat / 2 ^ 31 % 2 == 1

def enforceBIP68 (tx : CTransaction) (verifySequence : Bool) : Bool :=
  2 ≤ tx.nVersion.toUInt32.toNat && verifySequence

/-- The locks, and zeros in `prevHeights` for inputs without one. -/
def calculateSequenceLocks (tx : CTransaction) (verifySequence : Bool) (prevHeights : List Nat)
    (block : CBlockIndex) : Run ((Int × Int) × List Nat) := do
  require (prevHeights.length == tx.vin.length) (.assertion "prevHeights->size() == tx.vin.size()")
  if enforceBIP68 tx verifySequence then do
    let locks ← (tx.vin.zip prevHeights).foldlM (sequenceLockStep block) (-1, -1)
    pure (locks, (tx.vin.zip prevHeights).map fun input => if input.1.lockDisabled then 0 else input.2)
  else pure ((-1, -1), prevHeights)

def evaluateSequenceLocks (block : CBlockIndex) (lockPair : Int × Int) : Run Bool :=
  match block.pprev with
  | none => .error (.assertion "block.pprev")
  | some pprev =>
    pure (!(decide ((block.nHeight : Int) ≤ lockPair.1) ||
      decide ((pprev.getMedianTimePast : Int) ≤ lockPair.2)))

def testLockPointValidity (tip : CBlockIndex) (lp : LockPoints) : Bool :=
  match lp.maxInputBlock with
  | none => true
  | some maxInputBlock => chainContains (some tip) maxInputBlock

/-- The block after the tip, of which only `pprev` and `nHeight` are set. -/
def nextIndex (tip : CBlockIndex) : CBlockIndex := ⟨⟨0, 0⟩, tip.path⟩

/-- A coin of the pool will be in the next block. -/
def prevHeight (tip : CBlockIndex) (coin : Coin) : Nat :=
  if coin.nHeight = MEMPOOL_HEIGHT then tip.nHeight + 1 else coin.nHeight

variable (view : COutPoint → Option Coin)

def prevHeightsOf (tip : CBlockIndex) (tx : CTransaction) : Option (List Nat) :=
  tx.vin.mapM fun txin => (view txin.prevout).map (prevHeight tip)

/-- The highest height, except for those of coins in the pool. -/
def maxInputHeight (tip : CBlockIndex) (prevheights : List Nat) : Nat :=
  prevheights.foldl
    (fun maxInputHeight height =>
      if height ≠ tip.nHeight + 1 then max maxInputHeight height else maxInputHeight) 0

/-- The verdict, and the lock points if there is a place for them. -/
def checkSequenceLocks (tip : CBlockIndex) (tx : CTransaction)
    (verifySequence : Bool) (lp : Option LockPoints) (useExistingLockPoints : Bool) :
    Run (Bool × Option LockPoints) :=
  if useExistingLockPoints then
    match lp with
    | none => .error (.assertion "lp")
    | some cached => do
      let verdict ← evaluateSequenceLocks (nextIndex tip) (cached.height, cached.time)
      pure (verdict, lp)
  else
    match prevHeightsOf view tip tx with
    | none => pure (false, lp)
    | some prevheights => do
      let (lockPair, prevheights) ←
        calculateSequenceLocks tx verifySequence prevheights (nextIndex tip)
      let maxInputBlock := tip.getAncestor (maxInputHeight tip prevheights)
      let verdict ← evaluateSequenceLocks (nextIndex tip) lockPair
      pure (verdict, lp.map fun _ => ⟨lockPair.1, lockPair.2, maxInputBlock⟩)

/-! ### Lists of results -/

theorem mapM_eq_some_iff {α β : Type} {f : α → Option β} {l : List α} : ∀ {m : List β},
    l.mapM f = some m ↔ List.Forall₂ (fun a b => f a = some b) l m := by
  induction l with
  | nil =>
    intro m
    simp [eq_comm]
  | cons a l ih =>
    intro m
    cases m with
    | nil => simp [mapM_cons, Option.bind_eq_some_iff]
    | cons b m => simp [mapM_cons, Option.bind_eq_some_iff, ih]

theorem foldlM_congr {ε σ ι : Type} {f g : σ → ι → Except ε σ} {l : List ι}
    (h : ∀ i ∈ l, ∀ s, f s i = g s i) (s : σ) : l.foldlM f s = l.foldlM g s := by
  induction l generalizing s with
  | nil => rfl
  | cons i l ih =>
    rw [foldlM_cons, foldlM_cons, h i mem_cons_self s]
    congr
    funext t
    exact ih (forall_mem_cons.mp h).2 t

/-! ### The next block -/

variable {tip tip' B : CBlockIndex}

@[simp] theorem pprev_nextIndex (tip : CBlockIndex) : (nextIndex tip).pprev = some tip :=
  pprev_eq_some.mpr rfl

@[simp] theorem nHeight_nextIndex (tip : CBlockIndex) : (nextIndex tip).nHeight = tip.nHeight + 1 :=
  nHeight_pprev (pprev_nextIndex tip)

theorem getAncestor_nextIndex_eq (h : B ≤ tip) (h' : B ≤ tip') {n : Nat} (hn : n ≤ B.nHeight) :
    (nextIndex tip).getAncestor n = (nextIndex tip').getAncestor n := by
  rw [getAncestor_of_le (h.trans (pprev_le (pprev_nextIndex tip))) hn,
    getAncestor_of_le (h'.trans (pprev_le (pprev_nextIndex tip'))) hn]

/-! ### The locks depend on the blocks below the highest coin -/

variable {block : CBlockIndex} {prevHeights cleared : List Nat} {view : COutPoint → Option Coin}
  {lp : LockPoints}

theorem sequenceLockStep_congr {block' : CBlockIndex} {input : CTxIn × Nat}
    (h : input.1.lockDisabled = false →
      block.getAncestor (input.2 - 1) = block'.getAncestor (input.2 - 1)) (locks : Int × Int) :
    sequenceLockStep block locks input = sequenceLockStep block' locks input := by
  unfold sequenceLockStep
  dsimp only
  split
  · rfl
  · next henabled =>
    rw [h (by simpa [CTxIn.lockDisabled] using henabled)]

variable {tx : CTransaction} {verifySequence : Bool} {prevheights : List Nat}

theorem calculateSequenceLocks_of_le (h : B ≤ tip) (h' : B ≤ tip')
    (hbelow : enforceBIP68 tx verifySequence = true → ∀ input ∈ tx.vin.zip prevHeights,
      input.1.lockDisabled = false → input.2 ≤ B.nHeight) :
    calculateSequenceLocks tx verifySequence prevHeights (nextIndex tip) =
      calculateSequenceLocks tx verifySequence prevHeights (nextIndex tip') := by
  unfold calculateSequenceLocks
  cases henforce : enforceBIP68 tx verifySequence with
  | false => rfl
  | true =>
    have hsteps : ∀ input ∈ tx.vin.zip prevHeights, ∀ locks,
        sequenceLockStep (nextIndex tip) locks input =
          sequenceLockStep (nextIndex tip') locks input := by
      intro input hinput locks
      refine sequenceLockStep_congr (fun henabled => ?_) locks
      exact getAncestor_nextIndex_eq h h'
        ((Nat.sub_le _ _).trans (hbelow henforce input hinput henabled))
    rw [foldlM_congr hsteps]

/-! ### The highest coin -/

theorem foldl_maxInputHeight (tip : CBlockIndex) (prevheights : List Nat) : ∀ start : Nat,
    let result := prevheights.foldl
      (fun maxInputHeight height =>
        if height ≠ tip.nHeight + 1 then max maxInputHeight height else maxInputHeight) start
    start ≤ result ∧ (∀ height ∈ prevheights, height ≠ tip.nHeight + 1 → height ≤ result) ∧
      ((∀ height ∈ prevheights, height ≤ tip.nHeight + 1) → start ≤ tip.nHeight →
        result ≤ tip.nHeight) := by
  induction prevheights with
  | nil => intro start; simp
  | cons height prevheights ih =>
    intro start
    obtain ⟨hstart, hmem, hle⟩ := ih
      (if height ≠ tip.nHeight + 1 then max start height else start)
    simp only [foldl_cons]
    refine ⟨?_, ?_, ?_⟩
    · refine le_trans ?_ hstart
      split
      · exact le_max_left _ _
      · exact le_refl _
    · intro other hother hne
      rcases mem_cons.mp hother with rfl | hother
      · rw [if_pos hne] at hstart ⊢
        exact (le_max_right _ _).trans hstart
      · exact hmem other hother hne
    · intro hall hsmall
      refine hle (forall_mem_cons.mp hall).2 ?_
      have := hall height mem_cons_self
      split
      · exact max_le hsmall (by omega)
      · exact hsmall

theorem le_maxInputHeight {height : Nat} (hmem : height ∈ prevheights)
    (hne : height ≠ tip.nHeight + 1) : height ≤ maxInputHeight tip prevheights :=
  (foldl_maxInputHeight tip prevheights 0).2.1 height hmem hne

theorem maxInputHeight_le (h : ∀ height ∈ prevheights, height ≤ tip.nHeight + 1) :
    maxInputHeight tip prevheights ≤ tip.nHeight :=
  (foldl_maxInputHeight tip prevheights 0).2.2 h (Nat.zero_le _)

/-! ### Lock points on another chain -/

def Coin.ConfirmedBelow (coin : Coin) (tip : CBlockIndex) : Prop :=
  coin.nHeight ≤ tip.nHeight ∧ coin.nHeight ≠ MEMPOOL_HEIGHT

theorem prevHeightsOf_eq
    {height : CTxIn → Nat} (h : ∀ txin ∈ tx.vin, ∃ coin, view txin.prevout = some coin ∧
      coin.nHeight = height txin ∧ coin.nHeight ≠ MEMPOOL_HEIGHT) (tip : CBlockIndex) :
    prevHeightsOf view tip tx = some (tx.vin.map height) := by
  rw [prevHeightsOf, mapM_eq_some_iff, forall₂_map_right_iff, forall₂_same]
  intro txin htxin
  obtain ⟨coin, hcoin, hheight, hmempool⟩ := h txin htxin
  rw [hcoin, Option.map_some, prevHeight, if_neg hmempool, hheight]

theorem checkSequenceLocks_computed
    {verdict : Bool} {old : LockPoints} (hheights : prevHeightsOf view tip tx = some prevheights)
    (h : checkSequenceLocks view tip tx verifySequence (some old) false = .ok (verdict, some lp)) :
    ∃ cleared, calculateSequenceLocks tx verifySequence prevheights (nextIndex tip) =
        .ok ((lp.height, lp.time), cleared) ∧
      lp.maxInputBlock = tip.getAncestor (maxInputHeight tip cleared) := by
  unfold checkSequenceLocks at h
  rw [if_neg Bool.false_ne_true, hheights] at h
  simp only [bind_eq_ok, pure_eq_ok_iff, Prod.mk.injEq, Option.map_some, Option.some.injEq] at h
  obtain ⟨⟨lockPair, cleared⟩, hcalculate, _, -, -, rfl⟩ := h
  exact ⟨cleared, hcalculate, rfl⟩

theorem calculateSequenceLocks_cleared {locks : Int × Int}
    (h : calculateSequenceLocks tx verifySequence prevHeights block = .ok (locks, cleared)) :
    (∀ height ∈ cleared, height = 0 ∨ height ∈ prevHeights) ∧
      (enforceBIP68 tx verifySequence = true → ∀ input ∈ tx.vin.zip prevHeights,
        input.1.lockDisabled = false → input.2 ∈ cleared) := by
  unfold calculateSequenceLocks at h
  simp only [bind_eq_ok, require_eq_ok, exists_const] at h
  obtain ⟨-, h⟩ := h
  split at h
  · simp only [bind_eq_ok, pure_eq_ok_iff, Prod.mk.injEq] at h
    obtain ⟨_, -, -, rfl⟩ := h
    constructor
    · intro height hmem
      obtain ⟨input, hinput, rfl⟩ := mem_map.mp hmem
      split
      · exact Or.inl rfl
      · exact Or.inr (of_mem_zip hinput).2
    · intro _ input hinput henabled
      refine mem_map.mpr ⟨input, hinput, ?_⟩
      rw [henabled]
      rfl
  · next hnot =>
    cases h
    exact ⟨fun _ hmem => Or.inr hmem, fun henforce => absurd henforce hnot⟩

/-- The highest coin's block is above all that the locks depend on. -/
theorem calculateSequenceLocks_of_valid (hconfirmed : ∀ height ∈ prevheights, height ≤ tip.nHeight)
    (hcalculate : calculateSequenceLocks tx verifySequence prevheights (nextIndex tip) =
      .ok ((lp.height, lp.time), cleared))
    (hblock : lp.maxInputBlock = tip.getAncestor (maxInputHeight tip cleared))
    (hvalid : testLockPointValidity tip' lp = true) :
    calculateSequenceLocks tx verifySequence prevheights (nextIndex tip') =
      .ok ((lp.height, lp.time), cleared) := by
  obtain ⟨hcleared, hlocked⟩ := calculateSequenceLocks_cleared hcalculate
  have hall : ∀ height ∈ cleared, height ≤ tip.nHeight := by
    intro height hmem
    rcases hcleared height hmem with rfl | hmem
    · exact Nat.zero_le _
    · exact hconfirmed height hmem
  obtain ⟨B, hB, hBheight⟩ := tip.exists_le_nHeight
    (maxInputHeight_le fun height hmem => Nat.le_succ_of_le (hall height hmem))
  rw [← hBheight, getAncestor_eq_some_iff.mpr hB] at hblock
  have hB' : B ≤ tip' := by
    rw [testLockPointValidity, hblock] at hvalid
    exact chainContains_some.mp hvalid
  rw [← hcalculate]
  refine calculateSequenceLocks_of_le hB' hB fun henforce input hinput henabled => ?_
  have hmem := hlocked henforce input hinput henabled
  have hle := hall input.2 hmem
  rw [hBheight]
  exact le_maxInputHeight hmem (by omega)

/-- **Cached lock points stay correct across reorganizations**: judged valid, they give the verdict
    that is computed from scratch. -/
theorem lockPoints_correct_across_reorgs (tx : CTransaction) (verifySequence : Bool)
    (tip tip' : CBlockIndex) (view view' : COutPoint → Option Coin) (old lp : LockPoints)
    (verdict : Bool)
    (hconfirmed : ∀ txin ∈ tx.vin, ∃ coin, view txin.prevout = some coin ∧ coin.ConfirmedBelow tip)
    (hcomputed : checkSequenceLocks view tip tx verifySequence (some old) false =
      .ok (verdict, some lp))
    (hvalid : testLockPointValidity tip' lp = true)
    (hsame : ∀ txin ∈ tx.vin,
      (view' txin.prevout).map Coin.nHeight = (view txin.prevout).map Coin.nHeight) :
    ∀ place : Option LockPoints, ∃ verdict' recomputed,
      checkSequenceLocks view' tip' tx verifySequence (some lp) true = .ok (verdict', some lp) ∧
      checkSequenceLocks view' tip' tx verifySequence place false = .ok (verdict', recomputed) := by
  intro place
  -- the height of the coin that an input spends, on both chains
  let height (txin : CTxIn) : Nat := ((view txin.prevout).map Coin.nHeight).getD 0
  have hheights : prevHeightsOf view tip tx = some (tx.vin.map height) := by
    refine prevHeightsOf_eq (fun txin htxin => ?_) tip
    obtain ⟨coin, hcoin, hconfirmed⟩ := hconfirmed txin htxin
    refine ⟨coin, hcoin, ?_, hconfirmed.2⟩
    simp only [height, hcoin, Option.map_some, Option.getD_some]
  have hheights' : prevHeightsOf view' tip' tx = some (tx.vin.map height) := by
    refine prevHeightsOf_eq (fun txin htxin => ?_) tip'
    obtain ⟨coin, hcoin, hconfirmed⟩ := hconfirmed txin htxin
    have hheight := hsame txin htxin
    rw [hcoin, Option.map_some, Option.map_eq_some_iff] at hheight
    obtain ⟨coin', hcoin', hheight⟩ := hheight
    refine ⟨coin', hcoin', ?_, hheight ▸ hconfirmed.2⟩
    simp only [height, hcoin, hheight, Option.map_some, Option.getD_some]
  have hbelow : ∀ n ∈ tx.vin.map height, n ≤ tip.nHeight := by
    intro n hn
    obtain ⟨txin, htxin, rfl⟩ := mem_map.mp hn
    obtain ⟨coin, hcoin, hconfirmed⟩ := hconfirmed txin htxin
    simp only [height, hcoin, Option.map_some, Option.getD_some]
    exact hconfirmed.1
  obtain ⟨cleared, hcalculate, hblock⟩ := checkSequenceLocks_computed hheights hcomputed
  have hagain := calculateSequenceLocks_of_valid hbelow hcalculate hblock hvalid
  unfold checkSequenceLocks
  rw [if_pos rfl, if_neg Bool.false_ne_true, hheights']
  simp only [hagain, ok_bind, evaluateSequenceLocks, pprev_nextIndex]
  exact ⟨_, _, rfl, rfl⟩

/-! ### A growing chain -/

/-- `CheckFinalTx`; of its flags, `LOCKTIME_MEDIAN_TIME_PAST`. -/
def checkFinalTx (tip : CBlockIndex) (tx : CTransaction) (medianTimePast : Bool)
    (adjustedTime : Nat) : Bool :=
  isFinalTx tx (tip.nHeight + 1) (if medianTimePast then tip.getMedianTimePast else adjustedTime)

theorem evaluateSequenceLocks_mono {locks : Int × Int} (hheight : tip.nHeight ≤ tip'.nHeight)
    (hmedian : tip.getMedianTimePast ≤ tip'.getMedianTimePast)
    (h : evaluateSequenceLocks (nextIndex tip) locks = .ok true) :
    evaluateSequenceLocks (nextIndex tip') locks = .ok true := by
  simp only [evaluateSequenceLocks, pprev_nextIndex, nHeight_nextIndex, pure_eq_ok_iff,
    Bool.not_eq_true', Bool.or_eq_false_iff, decide_eq_false_iff_not] at h ⊢
  omega

theorem prevHeightsOf_confirmed
    (hconfirmed : ∀ txin ∈ tx.vin, ∃ coin, view txin.prevout = some coin ∧
      coin.ConfirmedBelow tip) :
    ∃ heights, (∀ t, prevHeightsOf view t tx = some heights) ∧
      ∀ n ∈ heights, n ≤ tip.nHeight := by
  let height (txin : CTxIn) : Nat := ((view txin.prevout).map Coin.nHeight).getD 0
  refine ⟨tx.vin.map height, fun t => prevHeightsOf_eq (fun txin htxin => ?_) t, fun n hn => ?_⟩
  · obtain ⟨coin, hcoin, hconfirmed⟩ := hconfirmed txin htxin
    exact ⟨coin, hcoin, by simp [height, hcoin], hconfirmed.2⟩
  · obtain ⟨txin, htxin, rfl⟩ := mem_map.mp hn
    obtain ⟨coin, hcoin, hconfirmed⟩ := hconfirmed txin htxin
    simpa [height, hcoin] using hconfirmed.1

/-- **Open locks stay open as the chain grows**, recomputed or cached: only a reorganisation can
    close them. -/
theorem locks_stay_open {now now' : Nat} (hle : tip ≤ tip') (htimes : TimesOk tip')
    (hnow : now ≤ now')
    (hconfirmed : ∀ txin ∈ tx.vin, ∃ coin, view txin.prevout = some coin ∧
      coin.ConfirmedBelow tip) :
    (∀ medianTimePast, checkFinalTx tip tx medianTimePast now = true →
      checkFinalTx tip' tx medianTimePast now' = true) ∧
    ∀ lp lp₁ useExistingLockPoints,
      checkSequenceLocks view tip tx verifySequence lp useExistingLockPoints = .ok (true, lp₁) →
      ∃ lp₂, checkSequenceLocks view tip' tx verifySequence lp useExistingLockPoints =
        .ok (true, lp₂) := by
  have hheight := nHeight_le hle
  have hmedian := getMedianTimePast_mono htimes hle
  constructor
  · intro medianTimePast h
    simp only [checkFinalTx, isFinalTx, Bool.or_eq_true, decide_eq_true_eq] at h ⊢
    refine h.imp_left (Or.imp_right fun h => h.trans_le ?_)
    cases medianTimePast <;> split <;> simp <;> omega
  · intro lp lp₁ useExistingLockPoints h
    unfold checkSequenceLocks at h ⊢
    cases useExistingLockPoints with
    | true =>
      rw [if_pos rfl] at h ⊢
      cases lp with
      | none => cases h
      | some cached =>
        dsimp only at h ⊢
        obtain ⟨_, hopen, h⟩ := bind_eq_ok.mp h
        cases h
        exact ⟨_, by rw [evaluateSequenceLocks_mono hheight hmedian hopen]; rfl⟩
    | false =>
      -- coins that were confirmed below both tips give the same locks
      obtain ⟨heights, hheights, hbelow⟩ := prevHeightsOf_confirmed hconfirmed
      rw [if_neg Bool.false_ne_true, hheights] at h ⊢
      dsimp only at h ⊢
      rw [calculateSequenceLocks_of_le hle (le_refl tip) fun _ input hinput _ =>
        hbelow input.2 (of_mem_zip hinput).2]
      obtain ⟨_, hlocks, h⟩ := bind_eq_ok.mp h
      obtain ⟨_, hopen, h⟩ := bind_eq_ok.mp h
      cases h
      exact ⟨_, by rw [hlocks, ok_bind, evaluateSequenceLocks_mono hheight hmedian hopen]; rfl⟩

namespace Regtest

def timeLocked : CTransaction where
  nVersion := 2
  vin := [{ prevout := ⟨7, 0⟩, scriptSig := [], nSequence := 0x400001 }]
  vout := []
  nLockTime := 0

def coinAtOne : COutPoint → Option Coin := fun _ => some ⟨⟨50, []⟩, 1, false⟩

def tipBefore : CBlockIndex := ⟨⟨2, 30⟩, [⟨1, 20⟩, ⟨0, 10⟩]⟩
def tipAfter : CBlockIndex := ⟨⟨4, 40⟩, [⟨3, 25⟩, ⟨1, 20⟩, ⟨0, 10⟩]⟩

def locksAtOne : LockPoints := ⟨-1, 521, some ⟨⟨1, 20⟩, [⟨0, 10⟩]⟩⟩

set_option maxRecDepth 4096 in
theorem timeLocked_across_fork :
    ∃ verdict recomputed,
      checkSequenceLocks coinAtOne tipAfter timeLocked true (some locksAtOne) true =
        .ok (verdict, some locksAtOne) ∧
      checkSequenceLocks coinAtOne tipAfter timeLocked true (some {}) false =
        .ok (verdict, recomputed) :=
  lockPoints_correct_across_reorgs timeLocked true tipBefore tipAfter coinAtOne coinAtOne {}
    locksAtOne false (fun _ _ => ⟨⟨⟨50, []⟩, 1, false⟩, rfl, by decide, by decide⟩) (by decide)
    (by decide) (fun _ _ => rfl) (some {})

def openTip : CBlockIndex := ⟨⟨2, 600⟩, [⟨1, 550⟩, ⟨0, 10⟩]⟩
def grownTip : CBlockIndex := ⟨⟨3, 560⟩, openTip.path⟩

theorem timeLocked_stays_open : ∃ lp,
    checkSequenceLocks coinAtOne grownTip timeLocked true none false = .ok (true, lp) := by
  have htimes := (timesOk_genesis (b := ⟨⟨0, 10⟩, []⟩) rfl).child (b := ⟨⟨1, 550⟩, [⟨0, 10⟩]⟩) rfl
    (by decide)
  refine (locks_stay_open (pprev_le rfl) ((htimes.child (b := openTip) rfl (by decide)).child rfl
    (by decide)) (le_refl 0) fun _ _ => ⟨⟨⟨50, []⟩, 1, false⟩, rfl, by decide, by decide⟩).2
    none none false ?_
  decide

end Regtest

end VBitcoin
