import VBitcoin.ArithUint256

/-!
**Difficulty** — `GetNextWorkRequired` (`pow.cpp`): the rule of Bitcoin below
`ZawyLWMAHeight`, then the average of the last 150 targets, weighted by how long their blocks
took (LWMA).  A chain is a list of headers, the last one first.  Signed 64-bit arithmetic is
checked; that 256-bit arithmetic does not wrap is proved (`lwmaLoop_spec`).
-/

namespace VBitcoin

open ArithUint256 List

/-- What the rules read of `Consensus::Params`, and the first header. -/
structure PowParams where
  powLimit : UInt256
  nPowTargetTimespan : Int
  nPowTargetSpacing : Int
  fPowAllowMinDifficultyBlocks : Bool
  fPowNoRetargeting : Bool
  ZawyLWMAHeight : Nat
  genesis : CBlockHeader

def int64 (x : Int) : Run Int :=
  if -(2 ^ 63) ≤ x ∧ x < 2 ^ 63 then .ok x else .error .overflow

def CBlockHeader.getBlockTime (header : CBlockHeader) : Int := header.nTime.toNat

def CBlockHeader.target (header : CBlockHeader) : UInt256 :=
  BitVec.ofNat 256 (setCompact header.nBits).1

/-- The conversion of an `int64_t` to the argument of `operator/`. -/
def arithOfInt (x : Int) : UInt256 := BitVec.ofInt 256 (x % 2 ^ 64)

namespace PowParams

variable (params : PowParams)

/-! ### The rule of Bitcoin -/

def difficultyAdjustmentInterval : Int := params.nPowTargetTimespan.tdiv params.nPowTargetSpacing

variable (pindexLast : CBlockHeader)

def bitcoinCalculateNextWorkRequired (nFirstBlockTime : Int) : Run UInt32 :=
  if params.fPowNoRetargeting then pure pindexLast.nBits
  else do
    let nActualTimespan ← int64 (pindexLast.getBlockTime - nFirstBlockTime)
    let shortest := params.nPowTargetTimespan.tdiv 4
    let longest ← int64 (params.nPowTargetTimespan * 4)
    let nActualTimespan := max shortest nActualTimespan
    let nActualTimespan := min longest nActualTimespan
    let bnNew := mulUInt32 pindexLast.target (UInt32.ofInt nActualTimespan)
    let bnNew ← div bnNew (arithOfInt params.nPowTargetTimespan)
    getCompact (if params.powLimit < bnNew then params.powLimit else bnNew)

/-- Passes over the blocks of the special rule. -/
def lastRegularBits (nProofOfWorkLimit : UInt32) : CBlockHeader → List CBlockHeader → UInt32
  | pindex, [] => pindex.nBits
  | pindex, pprev :: rest =>
    if (rest.length + 1 : Int).tmod params.difficultyAdjustmentInterval ≠ 0 ∧
        pindex.nBits = nProofOfWorkLimit then
      lastRegularBits nProofOfWorkLimit pprev rest
    else pindex.nBits

variable (before : List CBlockHeader)

def bitcoinGetNextWorkRequired (pblock : CBlockHeader) : Run UInt32 := do
  let nProofOfWorkLimit ← getCompact params.powLimit
  if (before.length + 1 : Int).tmod params.difficultyAdjustmentInterval ≠ 0 then
    if params.fPowAllowMinDifficultyBlocks then do
      let twice ← int64 (params.nPowTargetSpacing * 2)
      let late ← int64 (pindexLast.getBlockTime + twice)
      if late < pblock.getBlockTime then pure nProofOfWorkLimit
      else pure (params.lastRegularBits nProofOfWorkLimit pindexLast before)
    else pure pindexLast.nBits
  else do
    let nHeightFirst := (before.length : Int) - (params.difficultyAdjustmentInterval - 1)
    require (0 ≤ nHeightFirst) (.assertion "nHeightFirst >= 0")
    match (pindexLast :: before)[before.length - nHeightFirst.toNat]? with
    | none => .error (.assertion "pindexFirst")
    | some pindexFirst =>
      params.bitcoinCalculateNextWorkRequired pindexLast pindexFirst.getBlockTime

/-! ### The weighted average -/

structure LwmaState where
  previousTimestamp : Int
  sumWeightedSolvetimes : Int := 0
  j : Int := 0
  avgTarget : UInt256 := 0

/-- A time not after the previous one counts as the second after it. -/
def thisTimestamp (previousTimestamp blockTime : Int) : Run Int :=
  if previousTimestamp < blockTime then pure blockTime else int64 (previousTimestamp + 1)

/-- The time that a block took, at most six times what it should. -/
def solvetime (T previousTimestamp thisTimestamp : Int) : Run Int := do
  let longest ← int64 (6 * T)
  let difference ← int64 (thisTimestamp - previousTimestamp)
  pure (min longest difference)

def lwmaStep (T N k : Int) (s : LwmaState) (block : CBlockHeader) : Run LwmaState := do
  let thisTimestamp ← thisTimestamp s.previousTimestamp block.getBlockTime
  let solvetime ← solvetime T s.previousTimestamp thisTimestamp
  let j ← int64 (s.j + 1)
  let weighted ← int64 (solvetime * j)
  let sumWeightedSolvetimes ← int64 (s.sumWeightedSolvetimes + weighted)
  let quotient ← div block.target (arithOfInt N)
  let share ← div quotient (arithOfInt k)
  pure { previousTimestamp := thisTimestamp, sumWeightedSolvetimes, j,
         avgTarget := add s.avgTarget share }

def window (N : Nat) (chain : List CBlockHeader) : List CBlockHeader := (chain.take N).reverse

def lwmaCalculateNextWorkRequired : Run UInt32 :=
  if params.fPowNoRetargeting then pure pindexLast.nBits
  else do
    let T := params.nPowTargetSpacing
    require (T == 120) (.assertion "T == 120 && \"come here and update N from 150\"")
    let N := 150
    let k ← int64 ((N * (N + 1) * T).tdiv 2)
    match (pindexLast :: before)[150]? with
    | none => getCompact params.powLimit
    | some blockPreviousTimestamp => do
      let s ← (window 150 (pindexLast :: before)).foldlM (lwmaStep T N k)
        { previousTimestamp := blockPreviousTimestamp.getBlockTime }
      let nextTarget := mulUInt32 s.avgTarget (UInt32.ofInt s.sumWeightedSolvetimes)
      getCompact (if params.powLimit < nextTarget then params.powLimit else nextTarget)

/-- The test network allows the lowest difficulty after six hours. -/
def lwmaGetNextWorkRequired (pblock : CBlockHeader) : Run UInt32 := do
  let late ← int64 (pindexLast.getBlockTime + 6 * 60 * 60)
  if params.fPowAllowMinDifficultyBlocks && late < pblock.getBlockTime then
    getCompact params.powLimit
  else params.lwmaCalculateNextWorkRequired pindexLast before

def getNextWorkRequired (chain : List CBlockHeader) (pblock : CBlockHeader) : Run UInt32 :=
  match chain with
  | [] => .error (.assertion "pindexLast != nullptr")
  | pindexLast :: before =>
    if before.length + 1 < params.ZawyLWMAHeight then
      params.bitcoinGetNextWorkRequired pindexLast before pblock
    else params.lwmaGetNextWorkRequired pindexLast before pblock

/-! ### One block of the window -/

theorem setCompact_lt (nCompact : UInt32) : (setCompact nCompact).1 < 2 ^ 256 := by
  simp only [setCompact]
  split
  · exact Nat.lt_of_le_of_lt (Nat.div_le_self _ _)
      (Nat.lt_trans (Nat.mod_lt _ (by decide)) (by decide))
  · exact Nat.mod_lt _ (by decide)

theorem toNat_target (header : CBlockHeader) :
    header.target.toNat = (setCompact header.nBits).1 := by
  rw [CBlockHeader.target, BitVec.toNat_ofNat, Nat.mod_eq_of_lt (setCompact_lt _)]

theorem int64_ok {x : Int} (hlow : -(2 ^ 63) ≤ x) (hhigh : x < 2 ^ 63) : int64 x = .ok x :=
  if_pos ⟨hlow, hhigh⟩

theorem getBlockTime_bounds (header : CBlockHeader) :
    0 ≤ header.getBlockTime ∧ header.getBlockTime < 2 ^ 32 := by
  have := header.nTime.toNat_lt
  unfold CBlockHeader.getBlockTime
  omega

theorem thisTimestamp_spec {previousTimestamp : Int} (h : 0 ≤ previousTimestamp)
    (hbound : previousTimestamp < 2 ^ 33) (block : CBlockHeader) :
    ∃ t, thisTimestamp previousTimestamp block.getBlockTime = .ok t ∧ previousTimestamp < t ∧
      t ≤ max (previousTimestamp + 1) (2 ^ 32 - 1) := by
  have hblock := getBlockTime_bounds block
  unfold thisTimestamp
  split
  · exact ⟨_, rfl, by omega, by omega⟩
  · exact ⟨_, int64_ok (by omega) (by omega), by omega, by omega⟩

theorem solvetime_spec {previousTimestamp t : Int} (h : 0 ≤ previousTimestamp)
    (hbound : t < 2 ^ 34) (hlt : previousTimestamp < t) :
    ∃ solve, solvetime 120 previousTimestamp t = .ok solve ∧ 1 ≤ solve ∧ solve ≤ 720 := by
  refine ⟨min (6 * 120) (t - previousTimestamp), ?_, by omega, by omega⟩
  rw [solvetime, int64_ok (by omega) (by omega), int64_ok (by omega) (by omega)]
  rfl

def share (block : CBlockHeader) : Nat := block.target.toNat / 150 / 1359000

theorem div_const {a : UInt256} {n : Int} (h : (arithOfInt n).toNat = n.toNat) (hpos : 0 < n) :
    ∃ q, div a (arithOfInt n) = .ok q ∧ q.toNat = a.toNat / n.toNat := by
  have hne : (arithOfInt n).toNat ≠ 0 := by omega
  obtain ⟨q, hq, hvalue⟩ := div_eq_ok (a := a) hne
  exact ⟨q, hq, by rw [hvalue, h]⟩

variable {s : LwmaState} {limit : Nat} {blocks : List CBlockHeader}

/-- **One step of the loop**, from times and sums that are in range. -/
theorem lwmaStep_spec (hprev : 0 ≤ s.previousTimestamp)
    (hprev' : s.previousTimestamp < 2 ^ 33) (hj : 0 ≤ s.j) (hj' : s.j < 150)
    (hsum : 0 ≤ s.sumWeightedSolvetimes) (hsum' : s.sumWeightedSolvetimes < 2 ^ 32)
    (block : CBlockHeader) :
    ∃ t solve s', thisTimestamp s.previousTimestamp block.getBlockTime = .ok t ∧
      solvetime 120 s.previousTimestamp t = .ok solve ∧ (1 ≤ solve ∧ solve ≤ 720) ∧
      lwmaStep 120 150 1359000 s block = .ok s' ∧
      (s.previousTimestamp < s'.previousTimestamp ∧
        s'.previousTimestamp ≤ max (s.previousTimestamp + 1) (2 ^ 32 - 1)) ∧
      s'.j = s.j + 1 ∧
      s'.sumWeightedSolvetimes = s.sumWeightedSolvetimes + solve * (s.j + 1) ∧
      s'.avgTarget.toNat = (s.avgTarget.toNat + share block) % 2 ^ 256 := by
  obtain ⟨t, ht, hafter, hbound⟩ := thisTimestamp_spec hprev hprev' block
  obtain ⟨solve, hsolve, hlow, hhigh⟩ := solvetime_spec hprev (by omega) hafter
  obtain ⟨quotient, hquotient, hvalue⟩ :=
    div_const (a := block.target) (n := 150) (by decide) (by decide)
  obtain ⟨part, hpart, hshare⟩ := div_const (a := quotient) (n := 1359000) (by decide) (by decide)
  have hweighted : 0 ≤ solve * (s.j + 1) ∧ solve * (s.j + 1) ≤ 720 * 150 := by
    constructor
    · exact Int.mul_nonneg (by omega) (by omega)
    · exact Int.mul_le_mul hhigh (by omega) (by omega) (by omega)
  refine ⟨t, solve, ⟨t, _, _, add s.avgTarget part⟩, ht, hsolve, ⟨hlow, hhigh⟩, ?_,
    ⟨hafter, hbound⟩, rfl, rfl, ?_⟩
  · simp only [lwmaStep, ht, hsolve, ok_bind, hquotient, hpart]
    rw [int64_ok (by omega) (by omega), ok_bind, int64_ok (by omega) (by omega), ok_bind,
      int64_ok (by omega) (by omega), ok_bind]
    rfl
  · rw [toNat_add, hshare, hvalue]
    rfl

/-! ### The loop over the window -/

structure LoopInv (blocks : List CBlockHeader) (s : LwmaState) : Prop where
  time_nonneg : 0 ≤ s.previousTimestamp
  time_lt : s.previousTimestamp < 2 ^ 32 + blocks.length
  count : s.j = blocks.length
  weighted_ge : (blocks.length : Int) * (blocks.length + 1) ≤ 2 * s.sumWeightedSolvetimes
  weighted_le : 2 * s.sumWeightedSolvetimes ≤ 720 * ((blocks.length : Int) * (blocks.length + 1))
  average : s.avgTarget.toNat = (blocks.map share).sum

theorem share_le (block : CBlockHeader) : 150 * 1359000 * share block ≤ block.target.toNat := by
  unfold share
  omega

theorem sum_share_le (blocks : List CBlockHeader) :
    150 * 1359000 * (blocks.map share).sum ≤ (blocks.map fun block => block.target.toNat).sum := by
  induction blocks with
  | nil => exact Nat.le_refl 0
  | cons block rest ih =>
    have := share_le block
    simp only [map_cons, sum_cons]
    omega

theorem sum_target_le (h : ∀ block ∈ blocks, block.target.toNat ≤ limit) :
    (blocks.map fun block => block.target.toNat).sum ≤ blocks.length * limit := by
  have := sum_le_card_nsmul (blocks.map fun block => block.target.toNat) limit (by
    intro target hmem
    obtain ⟨block, hblock, rfl⟩ := mem_map.mp hmem
    exact h block hblock)
  simpa using this

theorem LoopInv.sum_bounds (h : LoopInv blocks s) (hlength : blocks.length ≤ 150) :
    0 ≤ s.sumWeightedSolvetimes ∧ s.sumWeightedSolvetimes ≤ 6 * 1359000 := by
  have hpairs : (blocks.length : Int) * (blocks.length + 1) ≤ 150 * 151 :=
    Int.mul_le_mul (by omega) (by omega) (by omega) (by omega)
  have hnonneg : 0 ≤ (blocks.length : Int) * (blocks.length + 1) :=
    Int.mul_nonneg (by omega) (by omega)
  have := h.weighted_ge
  have := h.weighted_le
  omega

/-- **A step keeps what is known**, and nothing wraps. -/
theorem LoopInv.step (hlimit : 6 * limit < 2 ^ 256)
    (h : LoopInv blocks s) (block : CBlockHeader) (hlength : blocks.length < 150)
    (htargets : ∀ b ∈ blocks ++ [block], b.target.toNat ≤ limit) :
    s.avgTarget.toNat + share block < 2 ^ 256 ∧
    ∃ t solve s', thisTimestamp s.previousTimestamp block.getBlockTime = .ok t ∧
      solvetime 120 s.previousTimestamp t = .ok solve ∧ (1 ≤ solve ∧ solve ≤ 720) ∧
      lwmaStep 120 150 1359000 s block = .ok s' ∧ LoopInv (blocks ++ [block]) s' := by
  have hsum := h.sum_bounds (Nat.le_of_lt hlength)
  have htime := h.time_nonneg
  have htime' := h.time_lt
  have hcount := h.count
  obtain ⟨t, solve, s', ht, hsolve, hrange, hstep, htimes, hj, hweighted, haverage⟩ :=
    lwmaStep_spec htime (by omega) (by omega) (by omega) hsum.1 (by omega) block
  have hwhole : (s.avgTarget.toNat + share block) = ((blocks ++ [block]).map share).sum := by
    rw [h.average]
    simp
  have hfits : s.avgTarget.toNat + share block < 2 ^ 256 := by
    have hshares := sum_share_le (blocks ++ [block])
    have htargets' := sum_target_le htargets
    have hmany : (blocks ++ [block]).length * limit ≤ 150 * limit :=
      Nat.mul_le_mul_right limit (by simp; omega)
    omega
  refine ⟨hfits, t, solve, s', ht, hsolve, hrange, hstep, ?_⟩
  -- the weights of `n + 1` blocks are those of `n`, and `n + 1`
  have hlen : ((blocks ++ [block]).length : Int) = blocks.length + 1 := by simp
  have hpairs : ((blocks.length : Int) + 1) * (blocks.length + 1 + 1) =
      blocks.length * (blocks.length + 1) + 2 * (blocks.length + 1) := by ring
  have hlow : (1 : Int) * (blocks.length + 1) ≤ solve * (blocks.length + 1) :=
    Int.mul_le_mul_of_nonneg_right hrange.1 (by omega)
  have hhigh : solve * ((blocks.length : Int) + 1) ≤ 720 * (blocks.length + 1) :=
    Int.mul_le_mul_of_nonneg_right hrange.2 (by omega)
  have hge := h.weighted_ge
  have hle := h.weighted_le
  rw [hcount] at hj hweighted
  constructor
  · omega
  · omega
  · rw [hj, hlen]
  · rw [hlen, hpairs, hweighted]
    omega
  · rw [hlen, hpairs, hweighted]
    omega
  · rw [haverage, Nat.mod_eq_of_lt hfits, hwhole]

/-- Before each block its time is from 1 to 720, and what it adds does not wrap. -/
theorem lwmaLoop_spec (hlimit : 6 * limit < 2 ^ 256) (first : CBlockHeader) :
    ∀ blocks : List CBlockHeader, blocks.length ≤ 150 →
      (∀ block ∈ blocks, block.target.toNat ≤ limit) →
      ∃ s, blocks.foldlM (lwmaStep 120 150 1359000)
        { previousTimestamp := first.getBlockTime } = .ok s ∧ LoopInv blocks s := by
  intro blocks
  induction blocks using List.reverseRecOn with
  | nil =>
    intro _ _
    have := getBlockTime_bounds first
    exact ⟨_, rfl, this.1, by simpa using this.2, rfl, by simp, by simp, rfl⟩
  | append_singleton blocks block ih =>
    intro hlength htargets
    rw [length_append, length_singleton] at hlength
    obtain ⟨s, hrun, hinv⟩ := ih (by omega) fun b hb => htargets b (mem_append_left _ hb)
    obtain ⟨-, t, solve, s', -, -, -, hstep, hinv'⟩ :=
      hinv.step hlimit block (by omega) htargets
    refine ⟨s', ?_, hinv'⟩
    rw [foldlM_append, hrun]
    simp only [ok_bind, foldlM_cons, foldlM_nil, hstep]
    rfl

/-- At most six times the average target, no wrap, not zero if every block has a share. -/
theorem LoopInv.product (hlimit : 6 * limit < 2 ^ 256)
    (h : LoopInv blocks s) (hlength : blocks.length = 150)
    (htargets : ∀ block ∈ blocks, block.target.toNat ≤ limit)
    (hlarge : ∀ block ∈ blocks, 150 * 1359000 ≤ block.target.toNat) :
    s.sumWeightedSolvetimes.toNat * s.avgTarget.toNat < 2 ^ 256 ∧
    150 * (s.sumWeightedSolvetimes.toNat * s.avgTarget.toNat) ≤
      6 * (blocks.map fun block => block.target.toNat).sum ∧
    s.sumWeightedSolvetimes.toNat * s.avgTarget.toNat ≠ 0 := by
  have hsum := h.sum_bounds (Nat.le_of_eq hlength)
  have hweighted := h.weighted_ge
  rw [hlength] at hweighted
  have hshares := sum_share_le blocks
  have hbound := sum_target_le htargets
  rw [← h.average] at hshares
  rw [hlength] at hbound
  have hproduct : s.sumWeightedSolvetimes.toNat * s.avgTarget.toNat ≤
      6 * 1359000 * s.avgTarget.toNat := Nat.mul_le_mul_right _ (by omega)
  refine ⟨by omega, by omega, Nat.mul_ne_zero (by omega) ?_⟩
  -- the first block has a share
  obtain ⟨block, rest, rfl⟩ := exists_cons_of_length_pos (by omega : 0 < blocks.length)
  have hshare : 1 ≤ share block := by
    have := hlarge block mem_cons_self
    unfold share
    omega
  rw [h.average, map_cons, sum_cons]
  omega

end PowParams

end VBitcoin
