import VBitcoin.Regtest

/-!
**Rules that look at the active tip** — `ContextualCheckBlockHeader` (`validation.cpp`) and
the PoP rules of `ConnectBlock`, as functions of the tip and the block index.  Two nodes should
agree whatever their tips are; but `isPopActive()` and `isCrossedBootstrapBlock()` ask the
tip.
-/

namespace VBitcoin

/-! ### The state of a node -/

/-- What the rules for headers depend on besides the consensus parameters. -/
structure HeaderParams where
  mapCheckpoints : List (Nat × UInt256)
  fCheckpointsEnabled : Bool
  maxAltchainFutureBlockTime : Nat
  /-- `GetNextWorkRequired`, from the previous block, its ancestors and the header. -/
  getNextWorkRequired : CBlockIndex → CBlockHeader → UInt32

/-- What they read of the node: the active tip and the block index. -/
structure NodeState where
  tip : Option CBlockIndex
  m_block_index : UInt256 → Option CBlockIndex

/-- `GetLastCheckpoint`: the last one that is in the block index. -/
def HeaderParams.getLastCheckpoint (params : HeaderParams) (node : NodeState) :
    Option CBlockIndex :=
  params.mapCheckpoints.reverse.findSome? fun checkpoint => node.m_block_index checkpoint.2

namespace NodeEnv

variable (E : NodeEnv)

def isPopActiveAtTip (tip : Option CBlockIndex) : Bool :=
  tip.any fun tip => E.isPopActive tip.nHeight

variable (params : HeaderParams) (node : NodeState)

def forksPriorToCheckpoint (nHeight : Nat) : Bool :=
  params.fCheckpointsEnabled &&
    (params.getLastCheckpoint node).any fun pcheckpoint => nHeight < pcheckpoint.nHeight

def timeTooNew (block : CBlockHeader) (nAdjustedTime : Int) : Bool :=
  nAdjustedTime + params.maxAltchainFutureBlockTime < block.nTime.toNat

def outdatedVersion (block : CBlockHeader) (nHeight : Nat) : Bool :=
  (block.nVersion < 2 && E.consensus.BIP34Height ≤ nHeight) ||
    (block.nVersion < 3 && E.consensus.BIP66Height ≤ nHeight) ||
    (block.nVersion < 4 && E.consensus.BIP65Height ≤ nHeight)

def contextualCheckBlockHeader (block : CBlockHeader)
    (pindexPrev : CBlockIndex) (nAdjustedTime : Int) : Run Unit := do
  let nHeight := pindexPrev.nHeight + 1
  require (block.nBits == params.getNextWorkRequired pindexPrev block)
    (.blockInvalid .BLOCK_INVALID_HEADER "bad-diffbits" "incorrect proof of work")
  require (!forksPriorToCheckpoint params node nHeight)
    (.blockInvalid .BLOCK_CHECKPOINT "bad-fork-prior-to-checkpoint" "")
  require (pindexPrev.getMedianTimePast < block.nTime.toNat)
    (.blockInvalid .BLOCK_INVALID_HEADER "time-too-old" "block's timestamp is too early")
  require (!(E.isPopActiveAtTip node.tip && timeTooNew params block nAdjustedTime))
    (.blockInvalid .BLOCK_TIME_FUTURE "time-too-new" "block timestamp too far in the future")
  require (!E.outdatedVersion block nHeight)
    (.blockInvalid .BLOCK_INVALID_HEADER
      ("bad-version(0x" ++ block.nVersion.toBitVec.toHex ++ ")")
      ("rejected nVersion=0x" ++ block.nVersion.toBitVec.toHex ++ " block"))
  require (!(block.hasPopBit && !E.paramsPopActive nHeight))
    (.blockInvalid .BLOCK_INVALID_HEADER
      ("bad-pop-version(0x" ++ block.nVersion.toBitVec.toHex ++ ")")
      "block contains PopData before PopSecurity has been enabled")

/-! ### Headers -/

/-- The rules for a header that depend on its ancestors only. -/
def headerRules (block : CBlockHeader) (pindexPrev : CBlockIndex) : Bool :=
  block.nBits == params.getNextWorkRequired pindexPrev block &&
    pindexPrev.getMedianTimePast < block.nTime.toNat &&
    !E.outdatedVersion block (pindexPrev.nHeight + 1) &&
    !(block.hasPopBit && !E.paramsPopActive (pindexPrev.nHeight + 1))

/-- The rules for a header that depend on the state of the node. -/
def nodeRules (block : CBlockHeader) (pindexPrev : CBlockIndex) (nAdjustedTime : Int) : Bool :=
  !forksPriorToCheckpoint params node (pindexPrev.nHeight + 1) &&
    !(E.isPopActiveAtTip node.tip && timeTooNew params block nAdjustedTime)

theorem accepted_contextualCheckBlockHeader (block : CBlockHeader)
    (pindexPrev : CBlockIndex) (nAdjustedTime : Int) :
    accepted (E.contextualCheckBlockHeader params node block pindexPrev nAdjustedTime) =
      (E.headerRules params block pindexPrev &&
        E.nodeRules params node block pindexPrev nAdjustedTime) := by
  rw [Bool.eq_iff_iff]
  simp only [accepted_iff, contextualCheckBlockHeader, bind_eq_ok, require_eq_ok, exists_const,
    headerRules, nodeRules, Bool.and_eq_true]
  tauto

/-! ### Blocks -/

variable (block : CBlock) (pindex : CBlockIndex)

def popRules (nFees : Int) : Run Unit :=
  match block.vtx with
  | [] => .error (.undefined "block.vtx[0]")
  | coinbase :: _ => do
    E.checkCoinbaseTxWithPopRewards coinbase nFees pindex
    require (E.pop.setState pindex.getBlockHash)
      (.blockInvalid .BLOCK_CONSENSUS "bad-block-pop-state"
        ("Block " ++ pindex.getBlockHash.toHex ++ " is POP invalid: "))

theorem accepted_checkPop (nFees : Int) (tip : Option CBlockIndex) :
    accepted (E.checkPop block pindex nFees tip) =
      (!E.isCrossedBootstrapBlock tip || accepted (E.popRules block pindex nFees)) := by
  unfold checkPop
  cases E.isCrossedBootstrapBlock tip with
  | false => rfl
  | true => rfl

variable (view : CCoinsViewCache)

/-- The state in which `ConnectBlock` comes to the PoP rules, if it does. -/
def reachesPopRules (fJustCheck : Bool) : Option ConnectState :=
  let run : Run ConnectState := do
    require (pindex.getBlockHash == E.blockHash block.header)
      (.assertion "*pindex->phashBlock == block.GetHash()")
    E.recheckBlock block pindex.pprev fJustCheck
    let (bestBlock, view) := view.getBestBlock
    require ((pindex.pprev.map CBlockIndex.getBlockHash).getD 0 == bestBlock)
      (.assertion "hashPrevBlock == view.GetBestBlock()")
    require (!(E.blockHash block.header == E.consensus.hashGenesisBlock)) (.assertion "genesis")
    match pindex.pprev with
    | none => .error (.assertion "pindex->pprev")
    | some pprev => do
      let view ← checkBIP30 view
        (if E.enforceBIP30 pindex pprev then block.vtx.flatMap E.createdBy else [])
      block.vtx.foldlM (E.connectTransaction pindex) { view }
  run.toOption

theorem accepted_connectBlock (tip : Option CBlockIndex) (fJustCheck : Bool) :
    accepted (E.connectBlock block pindex view tip fJustCheck) =
      match E.reachesPopRules block pindex view fJustCheck with
      | some s => accepted (E.checkPop block pindex s.nFees tip) && s.scriptsOk
      | none => accepted (E.connectBlock block pindex view none fJustCheck) := by
  unfold reachesPopRules connectBlock applyBlock
  dsimp only
  cases pindex.getBlockHash == E.blockHash block.header with
  | false => rfl
  | true =>
    cases E.recheckBlock block pindex.pprev fJustCheck with
    | error stop => rfl
    | ok u =>
      obtain ⟨bestBlock, view⟩ := view.getBestBlock
      simp only [require_true, ok_bind]
      cases (pindex.pprev.map CBlockIndex.getBlockHash).getD 0 == bestBlock with
      | false => rfl
      | true =>
        simp only [require_true, ok_bind]
        cases E.blockHash block.header == E.consensus.hashGenesisBlock with
        | true => rfl
        | false =>
          cases pindex.pprev with
          | none => rfl
          | some pprev =>
            simp only [Bool.not_false, require_true, ok_bind, Bool.false_eq_true, if_false,
              connectTransactions]
            cases checkBIP30 view
              (if E.enforceBIP30 pindex pprev then block.vtx.flatMap E.createdBy else []) with
            | error stop => rfl
            | ok view =>
              simp only [ok_bind]
              cases block.vtx.foldlM (E.connectTransaction pindex) { view } with
              | error stop => rfl
              | ok s =>
                simp only [ok_bind, Except.toOption]
                cases E.checkPop block pindex s.nFees tip with
                | error stop => rfl
                | ok u => cases s.scriptsOk <;> rfl

/-- Tips on different sides agree unless the block fails by the PoP rules alone. -/
theorem accepted_connectBlock_tips_iff (tip₁ tip₂ : Option CBlockIndex) (fJustCheck : Bool) :
    accepted (E.connectBlock block pindex view tip₁ fJustCheck) =
        accepted (E.connectBlock block pindex view tip₂ fJustCheck) ↔
      E.isCrossedBootstrapBlock tip₁ = E.isCrossedBootstrapBlock tip₂ ∨
        ∀ s ∈ E.reachesPopRules block pindex view fJustCheck, s.scriptsOk = true →
          accepted (E.popRules block pindex s.nFees) = true := by
  rw [E.accepted_connectBlock block pindex view tip₁, E.accepted_connectBlock block pindex view tip₂]
  cases E.reachesPopRules block pindex view fJustCheck with
  | none => simp
  | some s =>
    simp only [accepted_checkPop, Option.mem_def, Option.some.injEq, forall_eq']
    generalize accepted (E.popRules block pindex s.nFees) = passes
    cases E.isCrossedBootstrapBlock tip₁ <;> cases E.isCrossedBootstrapBlock tip₂ <;>
      cases s.scriptsOk <;> cases passes <;> decide

/-! ### Both -/

/-- **When two nodes agree** on a header and a block: the ancestors decide on the header or both
    find the same for it, and the tips are on one side of the bootstrap height or the PoP rules are
    kept. -/
theorem tip_independent_iff (params : HeaderParams) (node₁ node₂ : NodeState)
    (header : CBlockHeader) (pindexPrev : CBlockIndex) (nAdjustedTime : Int) (block : CBlock)
    (pindex : CBlockIndex) (view : CCoinsViewCache) (fJustCheck : Bool) :
    (accepted (E.contextualCheckBlockHeader params node₁ header pindexPrev nAdjustedTime) =
        accepted (E.contextualCheckBlockHeader params node₂ header pindexPrev nAdjustedTime) ∧
      accepted (E.connectBlock block pindex view node₁.tip fJustCheck) =
        accepted (E.connectBlock block pindex view node₂.tip fJustCheck)) ↔
    (E.headerRules params header pindexPrev = false ∨
        E.nodeRules params node₁ header pindexPrev nAdjustedTime =
          E.nodeRules params node₂ header pindexPrev nAdjustedTime) ∧
      (E.isCrossedBootstrapBlock node₁.tip = E.isCrossedBootstrapBlock node₂.tip ∨
        ∀ s ∈ E.reachesPopRules block pindex view fJustCheck, s.scriptsOk = true →
          accepted (E.popRules block pindex s.nFees) = true) := by
  rw [E.accepted_connectBlock_tips_iff]
  apply and_congr_left'
  rw [accepted_contextualCheckBlockHeader, accepted_contextualCheckBlockHeader]
  cases E.headerRules params header pindexPrev with
  | false => simp
  | true => simp

end NodeEnv

namespace Regtest

def earlyPopEnv : NodeEnv :=
  { env with consensus.VeriBlockPopSecurityHeight := 1, pop.bootstrapHeight := 1 }

def headerParams : HeaderParams where
  mapCheckpoints := []
  fCheckpointsEnabled := true
  maxAltchainFutureBlockTime := 600
  getNextWorkRequired _ _ := 0x207fffff

def nodeAt (chain : List CBlock) : NodeState where
  tip := env.tipIndex chain
  m_block_index hash := (env.tipIndex chain).filter fun pindex => pindex.getBlockHash == hash

def fastHeader : CBlockHeader :=
  { (blockOn (fillerChain 1) [filler]).header with nTime := 1631200000 + 1200 + 3600 }

def greedyBlock : CBlock := blockOn [genesis] [coinbase [0x51, 0x00] (60 * COIN)]

/-- A header passes where only the first header is known, and fails where its block is. The
    bootstrap block may pay anything while genesis is the tip, and not later. -/
theorem tips_disagree :
    accepted (earlyPopEnv.contextualCheckBlockHeader headerParams (nodeAt [genesis]) fastHeader
        (env.blockIndex (blockOn [genesis] [filler]) [genesis]) 1631201200) = true ∧
      accepted (earlyPopEnv.contextualCheckBlockHeader headerParams (nodeAt (fillerChain 1))
        fastHeader (env.blockIndex (blockOn [genesis] [filler]) [genesis]) 1631201200) = false ∧
      accepted (earlyPopEnv.connectBlock greedyBlock (env.blockIndex greedyBlock [genesis])
        (viewOf [genesis]) (nodeAt [genesis]).tip true) = true ∧
      accepted (earlyPopEnv.connectBlock greedyBlock (env.blockIndex greedyBlock [genesis])
        (viewOf [genesis]) (nodeAt [greedyBlock, genesis]).tip true) = false := by
  decide +kernel

end Regtest

end VBitcoin
