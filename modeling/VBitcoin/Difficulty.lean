import VBitcoin.HeaderCheck
import VBitcoin.Pow

/-!
**Targets along a chain** — what `GetNextWorkRequired` returns on the main and the test
network, after any chain of headers that is accepted.  Below `ZawyLWMAHeight` it never comes to
a retarget; from there on the product of the loop is at most six times the average of the
window.
-/

namespace VBitcoin

open ArithUint256 List

namespace PowParams

variable (params : PowParams)

/-! ### Chains of headers -/

/-- What `ContextualCheckBlockHeader` accepts, from the first header on. -/
inductive AcceptedChain (E : NodeEnv) : List CBlockHeader → Prop
  | genesis : AcceptedChain E [params.genesis]
  | next {chain : List CBlockHeader} {header : CBlockHeader} {nBits : UInt32}
      (rules : HeaderParams) (node : NodeState) (pindexPrev : CBlockIndex) (nAdjustedTime : Int)
      (hchain : AcceptedChain E chain)
      (hwork : params.getNextWorkRequired chain header = .ok nBits)
      (hprev : (pindexPrev.entry :: pindexPrev.ancestors) = chain.map E.indexEntry)
      (hcheck : E.contextualCheckBlockHeader
        { rules with getNextWorkRequired := fun _ _ => nBits } node header pindexPrev
        nAdjustedTime = .ok ()) : AcceptedChain E (header :: chain)

def Usable (nBits : UInt32) : Prop :=
  ∃ target, setCompact nBits = (target, false, false) ∧ target ≠ 0 ∧
    target ≤ params.powLimit.toNat

structure Sane : Prop where
  limit : 6 * params.powLimit.toNat < 2 ^ 256
  limit_ne_zero : params.powLimit.toNat ≠ 0
  timespan : params.nPowTargetTimespan = 14 * 24 * 60 * 60
  spacing : params.nPowTargetSpacing = 120
  retargets : params.fPowNoRetargeting = false
  lwmaHeight : 150 < params.ZawyLWMAHeight ∧ params.ZawyLWMAHeight ≤ 10080
  genesis : params.Usable params.genesis.nBits

/-! ### The rule with the weighted average -/

variable {chain : List CBlockHeader}

variable {N : Nat} {pindexLast : CBlockHeader} {before : List CBlockHeader} {E : NodeEnv}

theorem mem_of_mem_window {block : CBlockHeader} (h : block ∈ window N chain) : block ∈ chain :=
  mem_of_mem_take (mem_reverse.mp h)

theorem length_window (h : N ≤ chain.length) : (window N chain).length = N := by
  rw [window, length_reverse, length_take, Nat.min_eq_left h]

/-- The loop runs through without an overflow, over more than 150 blocks. -/
structure LwmaExact (chain : List CBlockHeader) : Prop where
  /-- Each block of the window took from 1 to 720 seconds, and its share does not wrap. -/
  steps : ∀ (first : CBlockHeader) (i : Nat) (block : CBlockHeader), chain[150]? = some first →
    (window 150 chain)[i]? = some block →
    ∃ s t solve, ((window 150 chain).take i).foldlM (lwmaStep 120 150 1359000)
        { previousTimestamp := first.getBlockTime } = .ok s ∧
      thisTimestamp s.previousTimestamp block.getBlockTime = .ok t ∧
      solvetime 120 s.previousTimestamp t = .ok solve ∧ (1 ≤ solve ∧ solve ≤ 720) ∧
      s.avgTarget.toNat + block.target.toNat / 150 / 1359000 < 2 ^ 256
  /-- The factor is a `uint32_t`, and the product does not wrap. -/
  product : ∀ first : CBlockHeader, chain[150]? = some first →
    ∃ s, (window 150 chain).foldlM (lwmaStep 120 150 1359000)
        { previousTimestamp := first.getBlockTime } = .ok s ∧
      (0 ≤ s.sumWeightedSolvetimes ∧ s.sumWeightedSolvetimes < 2 ^ 32) ∧
      s.sumWeightedSolvetimes.toNat * s.avgTarget.toNat < 2 ^ 256

theorem lwmaExact {limit : Nat} (hlimit : 6 * limit < 2 ^ 256)
    (hlong : 150 < chain.length) (htargets : ∀ header ∈ chain, header.target.toNat ≤ limit)
    (hlarge : ∀ header ∈ chain, 150 * 1359000 ≤ header.target.toNat) : LwmaExact chain := by
  have hlength : (window 150 chain).length = 150 := length_window (Nat.le_of_lt hlong)
  have hwindow : ∀ block ∈ window 150 chain, block.target.toNat ≤ limit :=
    fun block hmem => htargets block (mem_of_mem_window hmem)
  constructor
  · intro first i block _ hblock
    have hi : i < (window 150 chain).length := (List.getElem?_eq_some_iff.mp hblock).1
    have htake : ((window 150 chain).take i).length < 150 := by
      rw [length_take]
      omega
    obtain ⟨s, hrun, hinv⟩ := lwmaLoop_spec hlimit first _ (Nat.le_of_lt htake)
      fun b hb => hwindow b (mem_of_mem_take hb)
    have hnext : ∀ b ∈ (window 150 chain).take i ++ [block], b.target.toNat ≤ limit := by
      intro b hb
      rcases mem_append.mp hb with hb | hb
      · exact hwindow b (mem_of_mem_take hb)
      · rw [mem_singleton.mp hb]
        exact hwindow block (mem_of_getElem? hblock)
    obtain ⟨hfits, t, solve, -, ht, hsolve, hrange, -⟩ := hinv.step hlimit block htake hnext
    exact ⟨s, t, solve, hrun, ht, hsolve, hrange, hfits⟩
  · intro first _
    obtain ⟨s, hrun, hinv⟩ := lwmaLoop_spec hlimit first _ (Nat.le_of_eq hlength) hwindow
    have hsum := hinv.sum_bounds (Nat.le_of_eq hlength)
    refine ⟨s, hrun, by omega, ?_⟩
    exact (hinv.product hlimit hlength hwindow
      fun block hmem => hlarge block (mem_of_mem_window hmem)).1

variable {params}

theorem lwmaCalculateNextWorkRequired_spec (hsane : params.Sane) (hlong : 150 ≤ before.length)
    (htargets : ∀ header ∈ pindexLast :: before, header.target.toNat ≤ params.powLimit.toNat)
    (hlarge : ∀ header ∈ pindexLast :: before, 150 * 1359000 ≤ header.target.toNat) :
    ∃ nBits target, params.lwmaCalculateNextWorkRequired pindexLast before = .ok nBits ∧
      setCompact nBits = (target, false, false) ∧ target ≠ 0 ∧
      target ≤ params.powLimit.toNat ∧
      150 * target ≤ 6 * ((window 150 (pindexLast :: before)).map
        fun block => block.target.toNat).sum := by
  have hlength : (window 150 (pindexLast :: before)).length = 150 :=
    length_window (by simp; omega)
  obtain ⟨first, hfirst⟩ : ∃ first, (pindexLast :: before)[150]? = some first :=
    ⟨_, getElem?_eq_getElem (by simp; omega)⟩
  obtain ⟨s, hrun, hinv⟩ := lwmaLoop_spec hsane.limit first _ (Nat.le_of_eq hlength)
    fun block hmem => htargets block (mem_of_mem_window hmem)
  have hsum := hinv.sum_bounds (Nat.le_of_eq hlength)
  obtain ⟨hfits, hsix, hne⟩ := hinv.product hsane.limit hlength
    (fun block hmem => htargets block (mem_of_mem_window hmem))
    fun block hmem => hlarge block (mem_of_mem_window hmem)
  have hfactor : (UInt32.ofInt s.sumWeightedSolvetimes).toNat = s.sumWeightedSolvetimes.toNat := by
    rw [UInt32.ofInt, UInt32.toNat_ofNat']
    omega
  generalize hnext : mulUInt32 s.avgTarget (UInt32.ofInt s.sumWeightedSolvetimes) = nextTarget
  have hvalue : nextTarget.toNat = s.sumWeightedSolvetimes.toNat * s.avgTarget.toNat := by
    rw [← hnext, toNat_mulUInt32, hfactor, Nat.mod_eq_of_lt hfits]
  rw [← hvalue] at hsix hne
  -- the smaller one of the target and the limit
  generalize hcapped : (if params.powLimit < nextTarget then params.powLimit else nextTarget) =
    capped
  have hbounds : capped.toNat ≤ params.powLimit.toNat ∧ capped.toNat ≤ nextTarget.toNat ∧
      capped.toNat ≠ 0 := by
    have hlimit := hsane.limit_ne_zero
    rw [← hcapped]
    split
    · rename_i hlt
      rw [BitVec.lt_def] at hlt
      omega
    · rename_i hge
      rw [BitVec.lt_def] at hge
      omega
  obtain ⟨nBits, target, hbits, hcompact, hle, hnonzero⟩ := getCompact_spec capped
  refine ⟨nBits, target, ?_, hcompact, hnonzero hbounds.2.2, Nat.le_trans hle hbounds.1, ?_⟩
  · have hk : int64 ((150 * (150 + 1) * 120 : Int).tdiv 2) = .ok 1359000 := by decide
    simp only [lwmaCalculateNextWorkRequired, hsane.retargets, hsane.spacing, hfirst, hk, ok_bind,
      hrun, hnext, hcapped, hbits]
    rfl
  · omega

/-! ### The rule of Bitcoin, below the first retarget -/

theorem Usable.target_le {header : CBlockHeader} (h : params.Usable header.nBits) :
    header.target.toNat ≤ params.powLimit.toNat := by
  obtain ⟨target, hcompact, -, hle⟩ := h
  rw [toNat_target, hcompact]
  exact hle

theorem Sane.limit_usable (hsane : params.Sane) :
    ∃ nBits, getCompact params.powLimit = .ok nBits ∧ params.Usable nBits := by
  obtain ⟨nBits, target, hbits, hcompact, hle, hne⟩ := getCompact_spec params.powLimit
  exact ⟨nBits, hbits, target, hcompact, hne hsane.limit_ne_zero, hle⟩

theorem lastRegularBits_mem (nProofOfWorkLimit : UInt32) : ∀ (pindex : CBlockHeader)
    (before : List CBlockHeader), ∃ header ∈ pindex :: before,
      params.lastRegularBits nProofOfWorkLimit pindex before = header.nBits
  | pindex, [] => ⟨pindex, mem_cons_self, rfl⟩
  | pindex, pprev :: rest => by
    rw [lastRegularBits]
    split
    · obtain ⟨header, hmem, hbits⟩ := lastRegularBits_mem nProofOfWorkLimit pprev rest
      exact ⟨header, mem_cons_of_mem pindex hmem, hbits⟩
    · exact ⟨pindex, mem_cons_self, rfl⟩

theorem bitcoinGetNextWorkRequired_spec (hsane : params.Sane) (hheight : before.length + 1 < 10080)
    (husable : ∀ header ∈ pindexLast :: before, params.Usable header.nBits)
    (pblock : CBlockHeader) :
    ∃ nBits, params.bitcoinGetNextWorkRequired pindexLast before pblock = .ok nBits ∧
      params.Usable nBits := by
  obtain ⟨limit, hlimit, hlimitUsable⟩ := hsane.limit_usable
  have hinterval : params.difficultyAdjustmentInterval = 10080 := by
    rw [difficultyAdjustmentInterval, hsane.timespan, hsane.spacing]
    decide
  have hmod : (before.length + 1 : Int).tmod params.difficultyAdjustmentInterval ≠ 0 := by
    rw [hinterval, Int.tmod_eq_emod_of_nonneg (by omega)]
    omega
  have htime := getBlockTime_bounds pindexLast
  simp only [bitcoinGetNextWorkRequired, hlimit, ok_bind, if_pos hmod]
  split
  · have hlate : int64 (pindexLast.getBlockTime + 120 * 2) =
        .ok (pindexLast.getBlockTime + 120 * 2) := int64_ok (by omega) (by omega)
    have htwice : int64 (120 * 2) = .ok (120 * 2) := by decide
    rw [hsane.spacing, htwice, ok_bind, hlate, ok_bind]
    split
    · exact ⟨limit, rfl, hlimitUsable⟩
    · obtain ⟨header, hmem, hbits⟩ := @lastRegularBits_mem params limit pindexLast before
      exact ⟨_, rfl, hbits ▸ husable header hmem⟩
  · exact ⟨_, rfl, husable pindexLast mem_cons_self⟩

/-! ### Both rules -/

/-- After headers with usable targets that are large enough. -/
theorem getNextWorkRequired_usable (hsane : params.Sane)
    (hne : chain ≠ []) (husable : ∀ header ∈ chain, params.Usable header.nBits)
    (hlarge : ∀ header ∈ chain, 150 * 1359000 ≤ header.target.toNat) (pblock : CBlockHeader) :
    ∃ nBits, params.getNextWorkRequired chain pblock = .ok nBits ∧ params.Usable nBits := by
  obtain ⟨pindexLast, before, rfl⟩ := exists_cons_of_ne_nil hne
  have hheights := hsane.lwmaHeight
  simp only [getNextWorkRequired]
  split
  · exact bitcoinGetNextWorkRequired_spec hsane (by omega) husable pblock
  · have htime := getBlockTime_bounds pindexLast
    rw [lwmaGetNextWorkRequired, int64_ok (by omega) (by omega), ok_bind]
    split
    · exact hsane.limit_usable
    · have htargets : ∀ header ∈ pindexLast :: before,
          header.target.toNat ≤ params.powLimit.toNat :=
        fun header hmem => (husable header hmem).target_le
      obtain ⟨nBits, target, hbits, hcompact, hnonzero, hle, -⟩ :=
        lwmaCalculateNextWorkRequired_spec hsane (by omega) htargets hlarge
      exact ⟨nBits, hbits, target, hcompact, hnonzero, hle⟩

theorem AcceptedChain.ne_nil (h : params.AcceptedChain E chain) : chain ≠ [] := by
  cases h <;> exact cons_ne_nil _ _

theorem AcceptedChain.usable (hsane : params.Sane) (h : params.AcceptedChain E chain)
    (hlarge : ∀ header ∈ chain, 150 * 1359000 ≤ header.target.toNat) :
    ∀ header ∈ chain, params.Usable header.nBits := by
  induction h with
  | genesis =>
    intro header hmem
    rw [mem_singleton.mp hmem]
    exact hsane.genesis
  | @next chain header nBits rules node pindexPrev nAdjustedTime hchain hwork hprev hcheck ih =>
    have hbefore := fun header' hmem => hlarge header' (mem_cons_of_mem header hmem)
    have husable := ih hbefore
    obtain ⟨_, hrequired, hcheck⟩ := bind_eq_ok.mp hcheck
    have hbits : header.nBits = nBits := by simpa using hrequired
    obtain ⟨nBits', hwork', hnext⟩ :=
      getNextWorkRequired_usable hsane hchain.ne_nil husable hbefore header
    intro header' hmem
    rcases mem_cons.mp hmem with rfl | hmem
    · rw [hwork] at hwork'
      cases hwork'
      rw [hbits]
      exact hnext
    · exact husable header' hmem

/-! ### The networks -/

def main : PowParams where
  powLimit := 0x00000000ffffffffffffffffffffffffffffffffffffffffffffffffffffffff
  nPowTargetTimespan := 14 * 24 * 60 * 60
  nPowTargetSpacing := 2 * 60
  fPowAllowMinDifficultyBlocks := false
  fPowNoRetargeting := false
  ZawyLWMAHeight := 200
  genesis :=
    { nVersion := 1, hashPrevBlock := 0
      hashMerkleRoot := 0xde4c6021602aa5066fef8acfbb9e1e1191bfaa35fb2515c0816a61a22a597b97
      nTime := 1631200005, nBits := 0x1d00ffff, nNonce := 376976050 }

def testNet : PowParams where
  powLimit := 0x000007ffffffffffffffffffffffffffffffffffffffffffffffffffffffffff
  nPowTargetTimespan := 14 * 24 * 60 * 60
  nPowTargetSpacing := 2 * 60
  fPowAllowMinDifficultyBlocks := true
  fPowNoRetargeting := false
  ZawyLWMAHeight := 200
  genesis :=
    { nVersion := 1, hashPrevBlock := 0
      hashMerkleRoot := 0x172a104def609f48532c3e4afbd9d9f530b7c359d031ac47d63191cb11ae56fe
      nTime := 1631200000, nBits := 0x1d07ffff, nNonce := 412533384 }

theorem main_sane : main.Sane where
  limit := by decide
  limit_ne_zero := by decide
  timespan := rfl
  spacing := rfl
  retargets := rfl
  lwmaHeight := by decide
  genesis := ⟨(setCompact 0x1d00ffff).1, by decide, by decide, by decide⟩

theorem testNet_sane : testNet.Sane where
  limit := by decide +kernel
  limit_ne_zero := by decide +kernel
  timespan := rfl
  spacing := rfl
  retargets := rfl
  lwmaHeight := by decide
  genesis := ⟨(setCompact 0x1d07ffff).1, by decide +kernel, by decide +kernel, by decide⟩

/-- Whether `pblock` may have the lowest difficulty, as it is late. -/
def lateBlock (params : PowParams) (chain : List CBlockHeader) (pblock : CBlockHeader) : Bool :=
  params.fPowAllowMinDifficultyBlocks &&
    chain.head?.any fun pindexLast => pindexLast.getBlockTime + 6 * 60 * 60 < pblock.getBlockTime

/-- **Difficulty stays usable**, whatever the timestamps: the target is positive and within the
    limit, nothing overflows, and the weighted average is at most six times the average. -/
theorem difficulty_stays_usable (E : NodeEnv) {params : PowParams}
    (hparams : params = main ∨ params = testNet) {chain : List CBlockHeader}
    (hchain : params.AcceptedChain E chain)
    (hlarge : ∀ header ∈ chain, 150 * 1359000 ≤ header.target.toNat) (pblock : CBlockHeader) :
    ∃ nBits target, params.getNextWorkRequired chain pblock = .ok nBits ∧
      setCompact nBits = (target, false, false) ∧ target ≠ 0 ∧
      target ≤ params.powLimit.toNat ∧
      (params.ZawyLWMAHeight ≤ chain.length → LwmaExact chain ∧
        (params.lateBlock chain pblock = false → 150 * target ≤
          6 * ((window 150 chain).map fun block => block.target.toNat).sum)) := by
  have hsane : params.Sane := by
    rcases hparams with rfl | rfl
    · exact main_sane
    · exact testNet_sane
  have husable := hchain.usable hsane hlarge
  have htargets := fun header hmem => (husable header hmem).target_le
  obtain ⟨nBits, hbits, target, hcompact, hne, hle⟩ :=
    getNextWorkRequired_usable hsane hchain.ne_nil husable hlarge pblock
  refine ⟨nBits, target, hbits, hcompact, hne, hle, fun hheight => ?_⟩
  have hlwma := hsane.lwmaHeight
  refine ⟨lwmaExact hsane.limit (by omega) htargets hlarge, fun hlate => ?_⟩
  obtain ⟨pindexLast, before, rfl⟩ := exists_cons_of_ne_nil hchain.ne_nil
  rw [length_cons] at hheight
  -- the weighted average it is, and its result is the one that was returned
  obtain ⟨nBits', target', hbits', hcompact', -, -, hsix⟩ :=
    lwmaCalculateNextWorkRequired_spec hsane (by omega) htargets hlarge
  have htime := getBlockTime_bounds pindexLast
  have hnot : ¬ (params.fPowAllowMinDifficultyBlocks &&
      decide (pindexLast.getBlockTime + 6 * 60 * 60 < pblock.getBlockTime)) = true := by
    simpa [lateBlock] using hlate
  rw [getNextWorkRequired, if_neg (by omega), lwmaGetNextWorkRequired,
    int64_ok (by omega) (by omega), ok_bind, if_neg hnot, hbits'] at hbits
  cases hbits
  rw [hcompact'] at hcompact
  cases hcompact
  exact hsix

end PowParams

namespace Regtest

open PowParams

def regularHeader (height : Nat) : CBlockHeader where
  nVersion := 4
  hashPrevBlock := 0
  hashMerkleRoot := 0
  nTime := 1631200000 + 60 * UInt32.ofNat height
  nBits := 0x1d07ffff
  nNonce := 0

def regularChain : Nat → List CBlockHeader
  | 0 => [testNet.genesis]
  | height + 1 => regularHeader (height + 1) :: regularChain height

def noCheckpoints : HeaderParams where
  mapCheckpoints := []
  fCheckpointsEnabled := false
  maxAltchainFutureBlockTime := 0
  getNextWorkRequired _ _ := 0

def acceptAll (params : PowParams) : List CBlockHeader → Bool
  | [] => false
  | header :: chain =>
    match chain with
    | [] => header == params.genesis
    | pprev :: before =>
      (match params.getNextWorkRequired (pprev :: before) header with
        | .ok nBits => accepted (env.contextualCheckBlockHeader
            { noCheckpoints with getNextWorkRequired := fun _ _ => nBits } ⟨none, fun _ => none⟩
            header ⟨env.indexEntry pprev, before.map env.indexEntry⟩ 0)
        | .error _ => false) && acceptAll params (pprev :: before)

theorem acceptedChain_of_acceptAll {params : PowParams} :
    ∀ {chain : List CBlockHeader}, acceptAll params chain = true → params.AcceptedChain env chain
  | [], h => by cases h
  | [header], h => by
    rw [show header = params.genesis by simpa [acceptAll] using h]
    exact .genesis
  | header :: pprev :: before, h => by
    simp only [acceptAll, Bool.and_eq_true] at h
    obtain ⟨hstep, hrest⟩ := h
    split at hstep
    · rename_i nBits hwork
      obtain ⟨_, hcheck⟩ := accepted_iff.mp hstep
      exact .next noCheckpoints ⟨none, fun _ => none⟩ ⟨env.indexEntry pprev,
        before.map env.indexEntry⟩ 0 (acceptedChain_of_acceptAll hrest) hwork rfl hcheck
    · cases hstep

theorem regularChain_accepted : testNet.AcceptedChain env (regularChain 199) :=
  acceptedChain_of_acceptAll (by decide +kernel)

theorem regularChain_large : ∀ header ∈ regularChain 199, 150 * 1359000 ≤ header.target.toNat := by
  decide +kernel

/-- The header at height 200, a minute after the last one. -/
theorem regularChain_next : ∃ nBits target,
    testNet.getNextWorkRequired (regularChain 199) (regularHeader 200) = .ok nBits ∧
      setCompact nBits = (target, false, false) ∧ target ≠ 0 ∧
      target ≤ testNet.powLimit.toNat ∧ LwmaExact (regularChain 199) ∧
      150 * target ≤ 6 * ((window 150 (regularChain 199)).map fun block => block.target.toNat).sum := by
  obtain ⟨nBits, target, hbits, hcompact, hne, hle, hlwma⟩ := difficulty_stays_usable env
    (.inr rfl) regularChain_accepted regularChain_large (regularHeader 200)
  obtain ⟨hexact, hsix⟩ := hlwma (by decide +kernel)
  exact ⟨nBits, target, hbits, hcompact, hne, hle, hexact, hsix (by decide)⟩

def lateHeader : CBlockHeader :=
  { regularHeader 200 with nTime := 1631200000 + 60 * 199 + 6 * 60 * 60 + 1 }

/-- The target is the limit: 256 times the average of the window. -/
theorem lateHeader_exceeds_average :
    testNet.AcceptedChain env (regularChain 199) ∧
    (∀ header ∈ regularChain 199, 150 * 1359000 ≤ header.target.toNat) ∧
    testNet.ZawyLWMAHeight ≤ (regularChain 199).length ∧
    testNet.getNextWorkRequired (regularChain 199) lateHeader = .ok 0x1e07ffff ∧
    6 * ((window 150 (regularChain 199)).map fun block => block.target.toNat).sum <
      150 * (setCompact 0x1e07ffff).1 := by
  refine ⟨regularChain_accepted, regularChain_large, ?_, ?_, ?_⟩
  · decide +kernel
  · decide +kernel
  · decide +kernel

end Regtest

end VBitcoin
