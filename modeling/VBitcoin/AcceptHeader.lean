import VBitcoin.ChainStateFacts
import VBitcoin.HeaderCheck
import VBitcoin.ReplayBlocks

/-!
**New headers and new blocks** — `AddToBlockIndex`, `AcceptBlockHeader` and `AcceptBlock`
(`validation.cpp`) on the state of the node: how the index grows, when a header is
refused, and what the PoP library is told (`VeriBlock::acceptBlock` and
`VeriBlock::addAllBlockPayloads`).
-/

namespace VBitcoin

/-- What `AcceptBlockHeader` and `AcceptBlock` ask the rest of the node. -/
structure HeaderContext where
  params : HeaderParams
  nAdjustedTime : Int
  /-- `AltBlockTree::acceptBlockHeader`, given what the tree has been told: `none` when the
      header is accepted, else the path of the error. -/
  altAcceptBlockHeader : AltTree → CBlockIndex → Option String
  nMinimumChainWork : Nat
  savesBlock : Bool

def getBlockProof (nBits : UInt32) : Nat :=
  let (bnTarget, fNegative, fOverflow) := setCompact nBits
  if fNegative || fOverflow || bnTarget == 0 then 0
  else (2 ^ 256 - 1 - bnTarget) / (bnTarget + 1) + 1

namespace ChainState

def lookup (s : ChainState) (hash : UInt256) : Option CBlockIndex :=
  s.m_block_index.find? fun pindex => pindex.getBlockHash == hash

def nodeState (s : ChainState) : NodeState := ⟨s.tip, s.lookup⟩

/-- The failed block that is found below the parent of a new header. -/
def failedAncestor (s : ChainState) (pindexPrev : CBlockIndex) : Option CBlockIndex :=
  if s.isValid pindexPrev .BLOCK_VALID_SCRIPTS then none
  else s.m_failed_blocks.find? fun failedit =>
    pindexPrev.getAncestor failedit.nHeight == some failedit

/-- The loop that marks the blocks between the parent and the failed block. -/
def markDescendants (failedit : CBlockIndex) : List IndexEntry → ChainState → ChainState
  | [], s => s
  | entry :: rest, s =>
    let invalid_walk : CBlockIndex := ⟨entry, rest⟩
    if invalid_walk = failedit then s
    else markDescendants failedit rest
      (s.modifyStatus invalid_walk fun status => { status with failedChild := true })

end ChainState

namespace NodeEnv

variable (E : NodeEnv)

def newIndex (header : CBlockHeader) (pprev : Option CBlockIndex) : CBlockIndex :=
  ⟨E.indexEntry header, CBlockIndex.chainOf pprev⟩

def addToBlockIndex (s : ChainState) (block : CBlockHeader) : CBlockIndex × ChainState :=
  match s.lookup (E.blockHash block) with
  | some pindex => (pindex, s)
  | none =>
    let pprev := s.lookup block.hashPrevBlock
    let pindexNew := E.newIndex block pprev
    let nChainWork := ((pprev.map s.nChainWork).getD 0 + getBlockProof block.nBits) % 2 ^ 256
    let s := { s with m_block_index := s.m_block_index ++ [pindexNew] }
    let s := s.modify pindexNew fun _ =>
      { nStatus := ({} : BlockStatus).raiseValidity .BLOCK_VALID_TREE, nChainWork := nChainWork }
    let better := s.pindexBestHeader.all fun best =>
      s.nChainWork best < nChainWork && pindexNew.getAncestor best.nHeight == some best
    (pindexNew, if better then { s with pindexBestHeader := some pindexNew } else s)

variable (ctx : HeaderContext)

def checkNewHeader (s : ChainState) (block : CBlockHeader) : Run Unit × ChainState :=
  match E.checkBlockHeader block true with
  | .error stop => (.error stop, s)
  | .ok () =>
    match s.lookup block.hashPrevBlock with
    | none => (.error (.blockInvalid .BLOCK_MISSING_PREV "prev-blk-not-found" ""), s)
    | some pindexPrev =>
      if s.failed pindexPrev then (.error (.blockInvalid .BLOCK_INVALID_PREV "bad-prevblk" ""), s)
      else
        match E.contextualCheckBlockHeader ctx.params s.nodeState block pindexPrev
            ctx.nAdjustedTime with
        | .error stop => (.error stop, s)
        | .ok () =>
          match s.failedAncestor pindexPrev with
          | none => (.ok (), s)
          | some failedit =>
            if (s.status failedit).failedValid then
              (.error (.blockInvalid .BLOCK_INVALID_PREV "bad-prevblk" ""),
                ChainState.markDescendants failedit pindexPrev.path s)
            else (.error (.assertion "failedit->nStatus & BLOCK_FAILED_VALID"), s)

def storeHeader (s : ChainState) (block : CBlockHeader) : Run CBlockIndex × ChainState :=
  let (pindex, s) := E.addToBlockIndex s block
  if E.isCrossedBootstrapBlockAt pindex.nHeight then
    match ctx.altAcceptBlockHeader s.altTree pindex with
    | none => (.ok pindex, { s with altTree.blocks := s.altTree.blocks.insert pindex.getBlockHash })
    | some path => (.error (.blockInvalid .BLOCK_CACHED_INVALID path ""), s)
  else (.ok pindex, s)

def acceptHeader (s : ChainState) (block : CBlockHeader) : Run CBlockIndex × ChainState :=
  if E.blockHash block = E.consensus.hashGenesisBlock then E.storeHeader ctx s block
  else
    match s.lookup (E.blockHash block) with
    | some pindex =>
      if s.failed pindex then (.error (.blockInvalid .BLOCK_CACHED_INVALID "duplicate" ""), s)
      else (.ok pindex, s)
    | none =>
      match E.checkNewHeader ctx s block with
      | (.error stop, s) => (.error stop, s)
      | (.ok (), s) => E.storeHeader ctx s block

def acceptContext (s : ChainState) (pindex : CBlockIndex) : AcceptContext where
  tip := s.tip
  nMinimumChainWork := ctx.nMinimumChainWork
  acceptsAltBlock := (ctx.altAcceptBlockHeader s.altTree pindex).isNone
  savesBlock := ctx.savesBlock

/-- Gives the PoP data to the library, but not that of the bootstrap block. -/
def addPayloads (s : ChainState) (pindex : CBlockIndex) : ChainState :=
  if E.isCrossedBootstrapBlock s.tip && pindex.nHeight != E.pop.bootstrapHeight then
    { s with altTree.payloads := s.altTree.payloads.insert pindex.getBlockHash }
  else s

def acceptBody (fRequested : Bool) (block : CBlock) (pindex : CBlockIndex)
    (s : ChainState) : Run CBlockIndex × ChainState :=
  if (acceptContext ctx s pindex).skipsBlock fRequested pindex (s.fields pindex).toEntryFields then
    (.ok pindex, s)
  else
    match E.checkBody block pindex.pprev with
    | .error stop =>
      (.error stop,
        if stop.blamesHeader then
          s.modifyStatus pindex fun status => { status with failedValid := true }
        else s)
    | .ok () =>
      if E.isCrossedBootstrapBlock s.tip && !E.addAllBlockPayloads block pindex then
        (.error (.blockInvalid .BLOCK_CONSENSUS "bad-block-pop-payloads"
          ("Can not add POP payloads to block height: " ++ toString pindex.nHeight ++
            " , hash: " ++ (E.blockHash block.header).toHex ++ ": ")), s)
      else
        let s := E.addPayloads s pindex
        if ctx.savesBlock then
          match E.receivedBlockTransactions s block pindex with
          | .ok s => (.ok pindex, s)
          | .error stop => (.error stop, s)
        else (.error (.error
          "AcceptBlock: Failed to find position to write new block to disk"), s)

def acceptBlockData (fRequested : Bool) (s : ChainState) (block : CBlock) :
    Run CBlockIndex × ChainState :=
  match E.acceptHeader ctx s block.header with
  | (.error stop, s) => (.error stop, s)
  | (.ok pindex, s) => E.acceptBody ctx fRequested block pindex s

/-! ### What it does to the index -/

def HasGenesis (s : ChainState) : Prop :=
  ∃ g ∈ s.m_block_index, g.getBlockHash = E.consensus.hashGenesisBlock

variable {E} {s : ChainState} {pindex : CBlockIndex} {block : CBlockHeader}

variable {hash : UInt256} {s' : ChainState} {pindexNew : CBlockIndex}

theorem lookup_eq_some (h : s.lookup hash = some pindex) :
    pindex ∈ s.m_block_index ∧ pindex.getBlockHash = hash := by
  refine ⟨List.mem_of_find?_eq_some h, ?_⟩
  simpa using List.find?_some h

theorem lookup_eq_none :
    s.lookup hash = none ↔ ∀ b ∈ s.m_block_index, b.getBlockHash ≠ hash := by
  simp [ChainState.lookup]

structure Added (s : ChainState) (pindexNew : CBlockIndex) (s' : ChainState) : Prop where
  fresh : ∀ b ∈ s.m_block_index, b.getBlockHash ≠ pindexNew.getBlockHash
  index : s'.m_block_index = s.m_block_index ++ [pindexNew]
  tip : s'.tip = s.tip
  candidates : s'.setBlockIndexCandidates = s.setBlockIndexCandidates
  failed_blocks : s'.m_failed_blocks = s.m_failed_blocks
  status : s'.status pindexNew = { valid := .BLOCK_VALID_TREE }
  other : ∀ c, c ≠ pindexNew → s'.fields c = s.fields c

theorem Added.not_mem (h : Added s pindexNew s') :
    pindexNew ∉ s.m_block_index := fun hmem => h.fresh pindexNew hmem rfl

theorem Added.withAltTree (h : Added s pindexNew s')
    (altTree : AltTree) : Added s pindexNew { s' with altTree } :=
  ⟨h.fresh, h.index, h.tip, h.candidates, h.failed_blocks, h.status, h.other⟩

theorem addToBlockIndex_known
    (h : s.lookup (E.blockHash block) = some pindex) : E.addToBlockIndex s block = (pindex, s) := by
  unfold addToBlockIndex
  rw [h]

theorem addToBlockIndex_new (h : s.lookup (E.blockHash block) = none) :
    (E.addToBlockIndex s block).1 = E.newIndex block (s.lookup block.hashPrevBlock) ∧
      (E.addToBlockIndex s block).2.altTree = s.altTree ∧
      Added s (E.newIndex block (s.lookup block.hashPrevBlock)) (E.addToBlockIndex s block).2 := by
  unfold addToBlockIndex
  rw [h]
  dsimp only
  refine ⟨rfl, by split <;> rfl, ?_⟩
  refine ⟨lookup_eq_none.mp h, by split <;> rfl, by split <;> rfl, by split <;> rfl,
    by split <;> rfl, ?_, ?_⟩
  · unfold ChainState.status
    split <;> simp only [ChainState.modify_fields, if_pos] <;> rfl
  · intro c hc
    split <;> simp only [ChainState.modify_fields, if_neg hc]

theorem storeHeader_state (s : ChainState) (block : CBlockHeader) :
    ∃ altTree, (E.storeHeader ctx s block).2 = { (E.addToBlockIndex s block).2 with altTree } := by
  unfold storeHeader
  dsimp only
  split
  · split
    · exact ⟨_, rfl⟩
    · exact ⟨_, rfl⟩
  · exact ⟨_, rfl⟩

/-- The checks mark at most descendants of a failed block. -/
theorem checkNewHeader_cases (s : ChainState) (block : CBlockHeader) :
    (E.checkNewHeader ctx s block = (.ok (), s) ∧
        ∃ p, s.lookup block.hashPrevBlock = some p ∧ s.failed p = false ∧
          s.failedAncestor p = none) ∨
      ∃ stop s', E.checkNewHeader ctx s block = (.error stop, s') ∧
        (s' = s ∨ ∃ p failedit, s.lookup block.hashPrevBlock = some p ∧ s.failed p = false ∧
          s.failedAncestor p = some failedit ∧
          s' = ChainState.markDescendants failedit p.path s) := by
  unfold checkNewHeader
  cases E.checkBlockHeader block true with
  | error stop => exact Or.inr ⟨stop, s, rfl, Or.inl rfl⟩
  | ok u =>
    cases hprev : s.lookup block.hashPrevBlock with
    | none => exact Or.inr ⟨_, s, rfl, Or.inl rfl⟩
    | some p =>
      cases hfailed : s.failed p with
      | true => exact Or.inr ⟨_, s, if_pos hfailed, Or.inl rfl⟩
      | false =>
        simp only [hfailed, Bool.false_eq_true, if_false]
        cases E.contextualCheckBlockHeader ctx.params s.nodeState block p ctx.nAdjustedTime with
        | error stop => exact Or.inr ⟨stop, s, rfl, Or.inl rfl⟩
        | ok u =>
          cases hancestor : s.failedAncestor p with
          | none => exact Or.inl ⟨rfl, p, rfl, hfailed, hancestor⟩
          | some failedit =>
            right
            cases hvalid : (s.status failedit).failedValid with
            | true =>
              exact ⟨_, _, if_pos hvalid, Or.inr ⟨p, failedit, rfl, hfailed, hancestor, rfl⟩⟩
            | false => exact ⟨_, s, if_neg (Bool.eq_false_iff.mp hvalid), Or.inl rfl⟩

theorem acceptHeader_known (h : s.lookup (E.blockHash block) = some pindex) :
    ∃ altTree, (E.acceptHeader ctx s block).2 = { s with altTree } ∧
      s.altTree.blocks ⊆ altTree.blocks ∧ altTree.payloads = s.altTree.payloads := by
  unfold acceptHeader
  rw [h]
  split
  · unfold storeHeader
    rw [addToBlockIndex_known h]
    dsimp only
    split
    · split
      · exact ⟨_, rfl, fun _ hmem => List.mem_insert_of_mem hmem, rfl⟩
      · exact ⟨s.altTree, rfl, List.Subset.refl _, rfl⟩
    · exact ⟨s.altTree, rfl, List.Subset.refl _, rfl⟩
  · dsimp only
    split
    · exact ⟨s.altTree, rfl, List.Subset.refl _, rfl⟩
    · exact ⟨s.altTree, rfl, List.Subset.refl _, rfl⟩

theorem acceptHeader_new (hgenesis : E.HasGenesis s) (h : s.lookup (E.blockHash block) = none) :
    E.acceptHeader ctx s block =
      match E.checkNewHeader ctx s block with
      | (.error stop, s) => (.error stop, s)
      | (.ok (), s) => E.storeHeader ctx s block := by
  have hnew : E.blockHash block ≠ E.consensus.hashGenesisBlock := by
    obtain ⟨g, hg, hhash⟩ := hgenesis
    rw [← hhash]
    exact (lookup_eq_none.mp h g hg).symm
  unfold acceptHeader
  rw [if_neg hnew, h]

/-- Nothing, descendants of a failed block marked, or a new entry. -/
theorem acceptHeader_cases (hgenesis : E.HasGenesis s) (block : CBlockHeader) :
    (∃ altTree, (E.acceptHeader ctx s block).2 = { s with altTree }) ∨
      (∃ p failedit : CBlockIndex, (E.acceptHeader ctx s block).2 =
        ChainState.markDescendants failedit p.path s) ∨
      (∃ p ∈ s.m_block_index, s.failed p = false ∧ s.failedAncestor p = none ∧
        Added s (E.newIndex block (some p)) (E.acceptHeader ctx s block).2) := by
  cases hlookup : s.lookup (E.blockHash block) with
  | some pindex =>
    obtain ⟨altTree, heq, -, -⟩ := acceptHeader_known (E := E) ctx hlookup
    exact Or.inl ⟨altTree, heq⟩
  | none =>
    rw [acceptHeader_new ctx hgenesis hlookup]
    rcases checkNewHeader_cases (E := E) ctx s block with
      ⟨heq, p, hprev, hfailed, hancestor⟩ | ⟨stop, s', heq, rfl | ⟨p, failedit, -, -, -, rfl⟩⟩
    · rw [heq]
      dsimp only
      obtain ⟨altTree, hstate⟩ := storeHeader_state (E := E) ctx s block
      obtain ⟨-, -, hadded⟩ := addToBlockIndex_new (E := E) hlookup
      rw [hprev] at hadded
      refine Or.inr (Or.inr ⟨p, (lookup_eq_some hprev).1, hfailed, hancestor, ?_⟩)
      rw [hstate]
      exact hadded.withAltTree altTree
    · rw [heq]
      exact Or.inl ⟨s'.altTree, rfl⟩
    · rw [heq]
      exact Or.inr (Or.inl ⟨p, failedit, rfl⟩)

theorem newIndex_pprev (block : CBlockHeader) (p : CBlockIndex) :
    (E.newIndex block (some p)).pprev = some p := rfl

end NodeEnv

namespace ChainState

variable {s : ChainState}

theorem markDescendants_spec (failedit : CBlockIndex) (path : List IndexEntry) (s : ChainState) :
    (markDescendants failedit path s).m_block_index = s.m_block_index ∧
      (markDescendants failedit path s).tip = s.tip ∧
      (markDescendants failedit path s).m_failed_blocks = s.m_failed_blocks ∧
      (markDescendants failedit path s).altTree = s.altTree ∧
      ∀ c, (markDescendants failedit path s).status c = s.status c ∨
        (markDescendants failedit path s).status c = { s.status c with failedChild := true } := by
  induction path generalizing s with
  | nil => exact ⟨rfl, rfl, rfl, rfl, fun _ => Or.inl rfl⟩
  | cons entry rest ih =>
    unfold markDescendants
    dsimp only
    split
    · exact ⟨rfl, rfl, rfl, rfl, fun _ => Or.inl rfl⟩
    · obtain ⟨hindex, htip, hfailed, halt, hstatus⟩ := ih (s.modifyStatus ⟨entry, rest⟩ fun status =>
        { status with failedChild := true })
      refine ⟨hindex, htip, hfailed, halt, ?_⟩
      intro c
      rcases hstatus c with heq | heq
      · rw [heq, modifyStatus_status]
        split
        · exact Or.inr rfl
        · exact Or.inl rfl
      · rw [heq, modifyStatus_status]
        right
        split
        · rfl
        · rfl

theorem failedAncestor_eq_none {p : CBlockIndex} (h : s.failedAncestor p = none) :
    s.isValid p .BLOCK_VALID_SCRIPTS = true ∨ ∀ r ∈ s.m_failed_blocks, ¬ r ≤ p := by
  unfold failedAncestor at h
  split at h
  · next hvalid => exact Or.inl hvalid
  · right
    intro r hr hle
    have := List.find?_eq_none.mp h r hr
    simp [CBlockIndex.getAncestor_eq_some_iff.mpr hle] at this

end ChainState

end VBitcoin
