import VBitcoin.AcceptBlock
import VBitcoin.BlockTree

/-!
**The block index and its candidates** (`BlockManager` and `CChainState`, `validation.cpp`):
`AddToBlockIndex`, `ReceivedBlockTransactions`, `TestBlockIndex`, `FindBestChain`,
`PruneBlockIndexCandidates`, `InvalidBlockFound`, `InvalidateBlock`, `ResetBlockFailureFlags`,
`PreciousBlock`, and what `DisconnectTip` and `ConnectTip` do to the index.  Fields that change
are kept in the state; `ChainHost` answers for disk, coins and library.
-/

namespace VBitcoin

/-! ### The state -/

structure BlockFields extends EntryFields where
  nChainTx : Nat := 0
  nSequenceId : Int := 0
  deriving DecidableEq, Repr

structure AltTree where
  /-- The headers that `acceptBlockHeader` accepted, and the bootstrap block. -/
  blocks : List UInt256
  /-- The blocks whose PoP data was given to `acceptBlock`. -/
  payloads : List UInt256
  deriving DecidableEq, Repr

structure ChainState where
  m_block_index : List CBlockIndex
  fields : CBlockIndex → BlockFields
  tip : Option CBlockIndex
  setBlockIndexCandidates : List CBlockIndex
  m_blocks_unlinked : List (CBlockIndex × CBlockIndex)
  m_failed_blocks : List CBlockIndex
  pindexBestInvalid : Option CBlockIndex
  pindexBestHeader : Option CBlockIndex
  nBlockSequenceId : Int
  nBlockReverseSequenceId : Int
  nLastPreciousChainwork : Nat
  altTree : AltTree

structure ChainHost where
  /-- Whether `DisconnectTip` reads, undoes and flushes the block. -/
  disconnects : CBlockIndex → Bool
  /-- `ShutdownRequested`, in the n-th turn of the loop of `InvalidateBlock`. -/
  shutdownRequested : Nat → Bool
  address : CBlockIndex → Nat
  comparePopScore : UInt256 → UInt256 → Int

namespace ChainState

variable (s : ChainState) (pindex : CBlockIndex)

def status : BlockStatus := (s.fields pindex).nStatus

def failed : Bool := (s.status pindex).failed

def isValid (nUpTo : Validity) : Bool :=
  (s.status pindex).isValid nUpTo

def haveTxsDownloaded : Bool :=
  (s.fields pindex).nChainTx != 0

def nChainWork : Nat := (s.fields pindex).nChainWork

def modify (f : BlockFields → BlockFields) : ChainState :=
  { s with fields := fun b => if b = pindex then f (s.fields b) else s.fields b }

def modifyStatus (f : BlockStatus → BlockStatus) : ChainState :=
  s.modify pindex fun fields => { fields with nStatus := f fields.nStatus }

def insertCandidate : ChainState :=
  { s with setBlockIndexCandidates := s.setBlockIndexCandidates.insert pindex }

def eraseCandidate : ChainState :=
  { s with setBlockIndexCandidates := s.setBlockIndexCandidates.filter (· ≠ pindex) }

def isCandidate : Bool :=
  s.isValid pindex .BLOCK_VALID_TRANSACTIONS && s.haveTxsDownloaded pindex

def workLess (host : ChainHost) (s : ChainState) (pa pb : CBlockIndex) : Bool :=
  if s.nChainWork pb < s.nChainWork pa then false
  else if s.nChainWork pa < s.nChainWork pb then true
  else if (s.fields pa).nSequenceId < (s.fields pb).nSequenceId then false
  else if (s.fields pb).nSequenceId < (s.fields pa).nSequenceId then true
  else decide (host.address pb < host.address pa)

/-- The candidates that are not the parent of another one. -/
def keptCandidates : List CBlockIndex :=
  s.setBlockIndexCandidates.filter fun b =>
    !s.setBlockIndexCandidates.any fun el => el.pprev == some b

def pruneBlockIndexCandidates : Run ChainState := do
  require (!s.keptCandidates.isEmpty) (.assertion "!setBlockIndexCandidates.empty()")
  pure { s with setBlockIndexCandidates := s.keptCandidates }

def invalidChainFound (pindexNew : CBlockIndex) : ChainState :=
  if s.pindexBestInvalid.all fun best => s.nChainWork best < s.nChainWork pindexNew then
    { s with pindexBestInvalid := some pindexNew }
  else s

/-! ### Blocks that fail -/

def invalidBlockFound (result : BlockValidationResult) : ChainState :=
  if result = .BLOCK_MUTATED then s
  else
    let s := s.modifyStatus pindex fun status => { status with failedValid := true }
    let s := { s with m_failed_blocks := s.m_failed_blocks.insert pindex }
    let s := s.eraseCandidate pindex
    let s := match pindex.pprev with
      | some pprev => s.insertCandidate pprev
      | none => s
    s.invalidChainFound pindex

/-- The inner loop of `TestBlockIndex`, down to the block that is not usable. -/
def removeChain (testWalkBlock : CBlockIndex) (fFailedChain : Bool) :
    List IndexEntry → ChainState → ChainState
  | [], s => s
  | entry :: rest, s =>
    let pindexFailed : CBlockIndex := ⟨entry, rest⟩
    if testWalkBlock = pindexFailed then s
    else
      let s :=
        if fFailedChain then s.modifyStatus pindexFailed fun status =>
          { status with failedChild := true }
        else match pindexFailed.pprev with
          | some pprev =>
            { s with m_blocks_unlinked := s.m_blocks_unlinked ++ [(pprev, pindexFailed)] }
          | none => s
      removeChain testWalkBlock fFailedChain rest (s.eraseCandidate pindexFailed)

/-- The outer loop of `TestBlockIndex`, down to the active chain. -/
def testWalk (pindexTest : CBlockIndex) (s : ChainState) : List IndexEntry → Run (Bool × ChainState)
  | [] => pure (true, s)
  | entry :: rest =>
    let testWalkBlock : CBlockIndex := ⟨entry, rest⟩
    if chainContains s.tip testWalkBlock then pure (true, s)
    else do
      require (s.haveTxsDownloaded testWalkBlock || testWalkBlock.nHeight == 0)
        (.assertion "testWalkBlock->HaveTxsDownloaded() || testWalkBlock->nHeight == 0")
      let fFailedChain := s.failed testWalkBlock
      let fMissingData := !(s.status testWalkBlock).haveData
      if fFailedChain || fMissingData then
        let s := if fFailedChain then s.invalidChainFound pindexTest else s
        let s := removeChain testWalkBlock fFailedChain pindexTest.path s
        pure (false, s.eraseCandidate testWalkBlock)
      else testWalk pindexTest s rest

def testBlockIndex (pindexTest : CBlockIndex) : Run (Bool × ChainState) :=
  testWalk pindexTest s pindexTest.path

/-! ### Moving the tip -/

def disconnectTip (host : ChainHost) (s : ChainState) : Option ChainState :=
  match s.tip with
  | none => none
  | some pindexDelete =>
    if host.disconnects pindexDelete then some { s with tip := pindexDelete.pprev } else none

inductive ConnectVerdict where
  | connected
  | invalid (result : BlockValidationResult)
  | systemError
  deriving DecidableEq, Repr

def connectTip (pindexNew : CBlockIndex) (verdict : ConnectVerdict) : Run ChainState := do
  require (pindexNew.pprev == s.tip) (.assertion "pindexNew->pprev == m_chain.Tip()")
  match verdict with
  | .connected =>
    let s := s.modifyStatus pindexNew fun status =>
      { status with haveUndo := true }.raiseValidity .BLOCK_VALID_SCRIPTS
    pure { s with tip := some pindexNew }
  | .invalid result => pure (s.invalidBlockFound pindexNew result)
  | .systemError => pure s

/-! ### `InvalidateBlock` -/

structure InvalidateLoop where
  state : ChainState
  to_mark_failed : CBlockIndex
  candidate_blocks_by_work : List CBlockIndex

/-- The blocks off the active chain that may be better than `pprev`. -/
def candidateBlocksByWork (host : ChainHost) (s : ChainState) (pprev : CBlockIndex) :
    List CBlockIndex :=
  s.m_block_index.filter fun candidate =>
    !chainContains s.tip candidate && !s.workLess host candidate pprev && s.isCandidate candidate

/-- The tip is marked, and its parent is a candidate again. -/
def markDisconnected (invalid_walk_tip pprev : CBlockIndex) : ChainState :=
  let s := { s with tip := some pprev }
  let s := s.modifyStatus invalid_walk_tip fun status => { status with failedValid := true }
  (s.eraseCandidate invalid_walk_tip).insertCandidate pprev

/-- The block of the previous turn is to be marked as a descendant only. -/
def markChild (pprev to_mark_failed : CBlockIndex) : ChainState :=
  if pprev = to_mark_failed && (s.status to_mark_failed).failedValid then
    s.modifyStatus to_mark_failed fun status =>
      { status with failedValid := false, failedChild := true }
  else s

def InvalidateLoop.mark (host : ChainHost) (l : InvalidateLoop)
    (invalid_walk_tip pprev : CBlockIndex) : InvalidateLoop :=
  let s := (l.state.markDisconnected invalid_walk_tip pprev).markChild pprev l.to_mark_failed
  let better candidate := decide (s.nChainWork pprev ≤ s.nChainWork candidate) &&
    !s.workLess host candidate pprev
  { state := (l.candidate_blocks_by_work.filter better).foldl insertCandidate s
    to_mark_failed := invalid_walk_tip
    candidate_blocks_by_work := l.candidate_blocks_by_work.filter fun c => !better c }

/-- With it, whether no `DisconnectTip` failed. -/
def invalidateLoop (host : ChainHost) (pindex : CBlockIndex) :
    List IndexEntry → Nat → InvalidateLoop → Bool × InvalidateLoop
  | [], _, l => (true, l)
  | [_], _, l => (true, l)
  | entry :: parent :: rest, turn, l =>
    let invalid_walk_tip : CBlockIndex := ⟨entry, parent :: rest⟩
    if host.shutdownRequested turn then (true, l)
    else if !chainContains (some invalid_walk_tip) pindex then (true, l)
    else if !host.disconnects invalid_walk_tip then (false, l)
    else invalidateLoop host pindex (parent :: rest) (turn + 1)
      (l.mark host invalid_walk_tip ⟨parent, rest⟩)

/-- The end of `InvalidateBlock`: the candidates are collected again. -/
def markFailed (to_mark_failed : CBlockIndex) : Run (Bool × ChainState) :=
  if chainContains s.tip to_mark_failed then pure (false, s)
  else do
    let s := s.modifyStatus to_mark_failed fun status => { status with failedValid := true }
    let s := s.eraseCandidate to_mark_failed
    let s := { s with m_failed_blocks := s.m_failed_blocks.insert to_mark_failed }
    let s := (s.m_block_index.filter s.isCandidate).foldl insertCandidate s
    let s ← (s.invalidChainFound to_mark_failed).pruneBlockIndexCandidates
    pure (true, s)

/-- `InvalidateBlock`.  Genesis has no parent to compare the candidates with. -/
def invalidateBlock (host : ChainHost) (s : ChainState) (pindex : CBlockIndex) :
    Run (Bool × ChainState) :=
  match pindex.pprev with
  | none => .error (.undefined "pindex->pprev")
  | some pprev =>
    let l : InvalidateLoop := {
      state := s
      to_mark_failed := pindex
      candidate_blocks_by_work := s.candidateBlocksByWork host pprev }
    match invalidateLoop host pindex (s.tip.map CBlockIndex.path |>.getD []) 0 l with
    | (false, l) => pure (false, l.state)
    | (true, l) => l.state.markFailed l.to_mark_failed

/-! ### `ResetBlockFailureFlags` and `PreciousBlock` -/

def clearFailed (status : BlockStatus) : BlockStatus :=
  { status with failedValid := false, failedChild := false, failedPop := false,
                failedPopChild := false }

def resetDescendant (b : CBlockIndex) : ChainState :=
  let s := s.modifyStatus b clearFailed
  let s := if s.isCandidate b then s.insertCandidate b else s
  let s := if s.pindexBestInvalid = some b then { s with pindexBestInvalid := none } else s
  { s with m_failed_blocks := s.m_failed_blocks.filter (· ≠ b) }

def resetAncestor (b : CBlockIndex) : ChainState :=
  if s.failed b then
    { s.modifyStatus b clearFailed with m_failed_blocks := s.m_failed_blocks.filter (· ≠ b) }
  else s

def resetAncestors : List IndexEntry → ChainState → ChainState
  | [], s => s
  | entry :: rest, s => resetAncestors rest (s.resetAncestor ⟨entry, rest⟩)

def resetIfDescendant (s : ChainState) (b : CBlockIndex) : ChainState :=
  if !s.isValid b .BLOCK_VALID_TRANSACTIONS && b.getAncestor pindex.nHeight == some pindex then
    s.resetDescendant b
  else s

def resetDescendants : ChainState :=
  s.m_block_index.foldl (resetIfDescendant pindex) s

def resetBlockFailureFlags : Run ChainState := do
  let s ← (s.resetDescendants pindex).pruneBlockIndexCandidates
  pure (resetAncestors pindex.path s)

/-- The block gets a sequence number that precedes all others. -/
def resequence (tip pindex : CBlockIndex) : ChainState :=
  let reverse := if s.nLastPreciousChainwork < s.nChainWork tip then -1
    else s.nBlockReverseSequenceId
  let s := { s with nLastPreciousChainwork := s.nChainWork tip }
  let s := s.eraseCandidate pindex
  let s := s.modify pindex fun fields => { fields with nSequenceId := reverse }
  { s with nBlockReverseSequenceId := if -2 ^ 31 < reverse then reverse - 1 else reverse }

/-- `PreciousBlock`, up to `ActivateBestChain`. -/
def preciousBlock : Run ChainState :=
  match s.tip with
  | none => .error (.undefined "m_chain.Tip()->nChainWork")
  | some tip =>
    if s.nChainWork pindex < s.nChainWork tip then pure s
    else
      let s := s.resequence tip pindex
      if s.isCandidate pindex then (s.insertCandidate pindex).pruneBlockIndexCandidates else pure s

end ChainState

/-! ### The choice of a tip -/

namespace NodeEnv

variable (E : NodeEnv) (host : ChainHost)

def compareForks (left right : CBlockIndex) : Run Int :=
  if left = right then pure 0
  else if left.getAncestor right.nHeight = some right then pure 1
  else do
    require (E.pop.setState left.getBlockHash) (.assertion "current tip is invalid")
    pure (host.comparePopScore left.getBlockHash right.getBlockHash)

def considerCandidate (best : Option CBlockIndex × ChainState)
    (pindexNew : CBlockIndex) : Run (Option CBlockIndex × ChainState) := do
  if best.1 = some pindexNew then pure best
  else
    let (usable, s) ← best.2.testBlockIndex pindexNew
    if !usable then pure (best.1, s)
    else
      match best.1 with
      | none => pure (some pindexNew, s)
      | some bestCandidate => do
        let popComparisonResult ←
          if E.isPopActive bestCandidate.nHeight then E.compareForks host bestCandidate pindexNew
          else pure (if s.workLess host bestCandidate pindexNew then -1 else 1)
        pure (if popComparisonResult ≤ 0 then some pindexNew else some bestCandidate, s)

/-- `FindBestChain`; the candidates come in the order of their set. -/
def findBestChain (s : ChainState) : Run (Option CBlockIndex × ChainState) :=
  if s.setBlockIndexCandidates.isEmpty then pure (none, s)
  else
    let temp_set := s.setBlockIndexCandidates.insertionSort fun a b => !s.workLess host b a
    temp_set.foldlM (E.considerCandidate host) (s.tip, s)

/-! ### The data of a block arrives -/

/-- One turn of the loop of `ReceivedBlockTransactions`. -/
def linkBlock (s : ChainState) (pindex : CBlockIndex) : ChainState :=
  let nChainTx := ((pindex.pprev.map fun pprev => (s.fields pprev).nChainTx).getD 0 +
    (s.fields pindex).nTx) % 2 ^ 32
  let s' := s.modify pindex fun fields =>
    { fields with nChainTx := nChainTx, nSequenceId := s.nBlockSequenceId }
  let s' := { s' with nBlockSequenceId := s.nBlockSequenceId + 1 }.insertCandidate pindex
  { s' with m_blocks_unlinked := s.m_blocks_unlinked.filter fun waiting => waiting.1 ≠ pindex }

/-- The queue of `ReceivedBlockTransactions`, with enough turns for all. -/
def linkBlocks : Nat → List CBlockIndex → ChainState → ChainState
  | 0, _, s => s
  | _ + 1, [], s => s
  | turns + 1, pindex :: queue, s =>
    let range := s.m_blocks_unlinked.filter fun waiting => waiting.1 = pindex
    linkBlocks turns (queue ++ range.map Prod.snd) (linkBlock s pindex)

def recordData (s : ChainState) (block : CBlock) (pindexNew : CBlockIndex) : ChainState :=
  s.modify pindexNew fun fields =>
    { fields with toEntryFields := E.receivedFields block pindexNew fields.toEntryFields
                  nChainTx := 0 }

def receivedBlockTransactions (s : ChainState) (block : CBlock) (pindexNew : CBlockIndex) :
    Run ChainState :=
  let s := E.recordData s block pindexNew
  let s :=
    match pindexNew.pprev with
    | none => linkBlocks (s.m_blocks_unlinked.length + 1) [pindexNew] s
    | some pprev =>
      if s.haveTxsDownloaded pprev then linkBlocks (s.m_blocks_unlinked.length + 1) [pindexNew] s
      else if s.isValid pprev .BLOCK_VALID_TREE then
        { s with m_blocks_unlinked := s.m_blocks_unlinked ++ [(pprev, pindexNew)] }
      else s
  s.pruneBlockIndexCandidates

end NodeEnv

end VBitcoin
