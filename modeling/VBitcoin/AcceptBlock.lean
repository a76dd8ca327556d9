import VBitcoin.Regtest

/-!
**Storing a block** (`validation.cpp`) — `AcceptBlock` for a header that is in the index, with
its callers `ProcessNewBlock` and `LoadExternalBlockFile`.  A body that fails its checks marks
the header for every body, unless the failure is a mutation; `CheckBlock` runs first and does
not look at the merkle root.
-/

namespace VBitcoin

/-! ### The status of an index entry -/

inductive Validity where
  | BLOCK_VALID_UNKNOWN
  | BLOCK_VALID_RESERVED
  | BLOCK_VALID_TREE
  | BLOCK_VALID_TRANSACTIONS
  | BLOCK_VALID_CHAIN
  | BLOCK_VALID_SCRIPTS
  deriving DecidableEq, Repr

def Validity.level : Validity → Nat
  | BLOCK_VALID_UNKNOWN => 0
  | BLOCK_VALID_RESERVED => 1
  | BLOCK_VALID_TREE => 2
  | BLOCK_VALID_TRANSACTIONS => 3
  | BLOCK_VALID_CHAIN => 4
  | BLOCK_VALID_SCRIPTS => 5

structure BlockStatus where
  valid : Validity := .BLOCK_VALID_UNKNOWN
  haveData : Bool := false
  haveUndo : Bool := false
  failedValid : Bool := false
  failedChild : Bool := false
  optWitness : Bool := false
  failedPop : Bool := false
  failedPopChild : Bool := false
  deriving DecidableEq, Repr

namespace BlockStatus

variable (status : BlockStatus)

def failed : Bool :=
  status.failedValid || status.failedChild || status.failedPop || status.failedPopChild

def isValid (nUpTo : Validity) : Bool :=
  !status.failed && nUpTo.level ≤ status.valid.level

def raiseValidity (nUpTo : Validity) : BlockStatus :=
  if status.failed then status
  else if status.valid.level < nUpTo.level then { status with valid := nUpTo } else status

end BlockStatus

/-- The fields of an index entry that `AcceptBlock` reads and writes. -/
structure EntryFields where
  nStatus : BlockStatus
  nTx : Nat := 0
  nChainWork : Nat
  deriving DecidableEq, Repr

/-! ### The code -/

/-- What `AcceptBlock` asks the rest of the node. -/
structure AcceptContext where
  tip : Option CBlockIndex
  nMinimumChainWork : Nat
  acceptsAltBlock : Bool
  savesBlock : Bool

/-- A failure that counts against the header: invalid, and no mutation. -/
def Stop.blamesHeader : Stop → Bool
  | .blockInvalid result _ _ => result != .BLOCK_MUTATED
  | _ => false

/-- The blocks that `AcceptBlock` has, or did not ask for and does not want. -/
def AcceptContext.skipsBlock (ctx : AcceptContext) (fRequested : Bool) (pindex : CBlockIndex)
    (entry : EntryFields) : Bool :=
  entry.nStatus.haveData ||
    (!fRequested && (entry.nTx != 0 ||
      decide (heightAfter ctx.tip + MIN_BLOCKS_TO_KEEP < pindex.nHeight + 1) ||
      decide (entry.nChainWork < ctx.nMinimumChainWork)))

namespace NodeEnv

variable (E : NodeEnv)

/-- For a header that is in the index; genesis is shown to the PoP library. -/
def acceptBlockHeader (ctx : AcceptContext) (header : CBlockHeader) (pindex : CBlockIndex)
    (entry : EntryFields) : Run Unit :=
  if E.blockHash header = E.consensus.hashGenesisBlock then
    onlyIf (E.isCrossedBootstrapBlockAt pindex.nHeight)
      (require ctx.acceptsAltBlock (.error "ALT tree could not accept block"))
  else
    require (!entry.nStatus.failed) (.blockInvalid .BLOCK_CACHED_INVALID "duplicate" "")

def checkBody (block : CBlock) (pprev : Option CBlockIndex) : Run Unit := do
  let block ← E.checkBlock block true
  E.contextualCheckBlock block pprev true

/-- `VeriBlock::addAllBlockPayloads`; the bootstrap block is skipped. -/
def addAllBlockPayloads (block : CBlock) (pindex : CBlockIndex) : Bool :=
  pindex.nHeight == E.pop.bootstrapHeight || (E.pop.check block.popData).isNone

/-- What `ReceivedBlockTransactions` does to the entry of the block. -/
def receivedFields (block : CBlock) (pindex : CBlockIndex) (entry : EntryFields) : EntryFields :=
  let status := { entry.nStatus with
    haveData := true
    optWitness := entry.nStatus.optWitness || E.isWitnessEnabled pindex.pprev }
  { entry with nTx := block.vtx.length, nStatus := status.raiseValidity .BLOCK_VALID_TRANSACTIONS }

/-- `AcceptBlock`: how it returns, and the entry it leaves behind. -/
def acceptBlock (ctx : AcceptContext) (fRequested : Bool) (block : CBlock) (pindex : CBlockIndex)
    (entry : EntryFields) : Run Unit × EntryFields :=
  match E.acceptBlockHeader ctx block.header pindex entry with
  | .error stop => (.error stop, entry)
  | .ok () =>
    if ctx.skipsBlock fRequested pindex entry then (.ok (), entry)
    else
      match E.checkBody block pindex.pprev with
      | .error stop =>
        (.error stop,
          if stop.blamesHeader then { entry with nStatus.failedValid := true } else entry)
      | .ok () =>
        if E.isCrossedBootstrapBlock ctx.tip && !E.addAllBlockPayloads block pindex then
          (.error (.blockInvalid .BLOCK_CONSENSUS "bad-block-pop-payloads"
            ("Can not add POP payloads to block height: " ++ toString pindex.nHeight ++
              " , hash: " ++ (E.blockHash block.header).toHex ++ ": ")), entry)
        else if ctx.savesBlock then (.ok (), E.receivedFields block pindex entry)
        else (.error (.error
          "AcceptBlock: Failed to find position to write new block to disk"), entry)

/-- `ProcessNewBlock`, up to `ActivateBestChain`. -/
def processNewBlock (ctx : AcceptContext) (fForceProcessing : Bool) (block : CBlock)
    (pindex : CBlockIndex) (entry : EntryFields) : Run Unit × EntryFields :=
  match E.checkBlock block true with
  | .error stop => (.error stop, entry)
  | .ok block => E.acceptBlock ctx fForceProcessing block pindex entry

/-- What `LoadExternalBlockFile` does with a block whose header is in the index. -/
def loadExternalBlock (ctx : AcceptContext) (block : CBlock) (pindex : CBlockIndex)
    (entry : EntryFields) : Run Unit × EntryFields :=
  if entry.nStatus.haveData then (.ok (), entry) else E.acceptBlock ctx true block pindex entry

/-! ### Who marks a header -/

def processesBody (ctx : AcceptContext) (fRequested : Bool) (block : CBlock) (pindex : CBlockIndex)
    (entry : EntryFields) : Bool :=
  accepted (E.acceptBlockHeader ctx block.header pindex entry) &&
    !ctx.skipsBlock fRequested pindex entry

variable {block : CBlock} {ctx : AcceptContext} {pindex : CBlockIndex} {entry : EntryFields}

variable {stop : Stop} {fRequested : Bool}

theorem checkBlock_blames (h : E.checkBlock block true = .error stop) :
    stop.blamesHeader = true := by
  obtain ⟨result, reason, debug, rfl, hresult⟩ := E.checkBlock_stops block true stop h
  simpa [Stop.blamesHeader] using hresult

theorem contextualCheckBlock_blames {pprev : Option CBlockIndex}
    (h : E.contextualCheckBlock block pprev true = .error stop) (hblames : stop.blamesHeader = true) :
    E.bodyCommitted block pprev = true := by
  by_contra hforeign
  -- the first rule after the assertion is the merkle root, whose failure is a mutation
  have hstops : StopsWith (fun stop => stop.blamesHeader = false)
      (E.contextualCheckBlock block pprev true) := by
    refine stopsWith_bind (stopsWith_require (P := fun stop => Stop.blamesHeader stop = false)
      rfl _) fun _ _ => ?_
    refine stopsWith_bind (fun stop hstop => ?_) fun _ hroot => ?_
    · obtain ⟨reason, debug, rfl⟩ := E.verifyTopLevelMerkleRoot_stops block pprev stop hstop
      rfl
    · exact absurd (E.verifyTopLevelMerkleRoot_eq_ok.mp hroot) hforeign
  rw [hstops stop h] at hblames
  cases hblames

theorem bodyCommitted_of_checkBlock {block' : CBlock}
    (h : E.checkBlock block true = .ok block') (pprev : Option CBlockIndex) :
    E.bodyCommitted block' pprev = E.bodyCommitted block pprev := by
  unfold checkBlock at h
  split at h
  · cases h
    rfl
  · obtain ⟨_, -, h⟩ := bind_eq_ok.mp h
    cases h
    rfl

def MarksFailed (ctx : AcceptContext) (fRequested : Bool) (block : CBlock) (pindex : CBlockIndex)
    (entry : EntryFields) : Prop :=
  entry.nStatus.failedValid = false ∧
    (E.acceptBlock ctx fRequested block pindex entry).2.nStatus.failedValid = true

theorem marksFailed_iff :
    E.MarksFailed ctx fRequested block pindex entry ↔
      entry.nStatus.failedValid = false ∧
        E.processesBody ctx fRequested block pindex entry = true ∧
        ∃ stop, E.checkBody block pindex.pprev = .error stop ∧ stop.blamesHeader = true := by
  unfold MarksFailed
  refine and_congr_right fun hbefore => ?_
  unfold acceptBlock processesBody
  cases hheader : E.acceptBlockHeader ctx block.header pindex entry with
  | error stop => simp [hbefore]
  | ok u =>
    cases hskips : ctx.skipsBlock fRequested pindex entry with
    | true => simp [hbefore]
    | false =>
      cases hbody : E.checkBody block pindex.pprev with
      | error stop =>
        cases hblames : stop.blamesHeader <;> simp [hblames, hbefore]
      | ok u =>
        have hreceived : (E.receivedFields block pindex entry).nStatus.failedValid = false := by
          unfold receivedFields BlockStatus.raiseValidity
          simp only
          split
          · exact hbefore
          · split <;> exact hbefore
        simp only [accepted_ok, Bool.not_false, Bool.and_self, reduceCtorEq, false_and, exists_false,
          and_false, iff_false, Bool.false_eq_true, if_false]
        split
        · simp [hbefore]
        · split
          · simp [hreceived]
          · simp [hbefore]

theorem bodyCommitted_of_marksFailed (haccepted : accepted (E.checkBlock block true) = true)
    (hmarks : E.MarksFailed ctx fRequested block pindex entry) :
    E.bodyCommitted block pindex.pprev = true := by
  obtain ⟨-, -, stop, hbody, hblames⟩ := E.marksFailed_iff.mp hmarks
  obtain ⟨block', hcheck⟩ := accepted_iff.mp haccepted
  rw [checkBody, hcheck, ok_bind] at hbody
  rw [← E.bodyCommitted_of_checkBlock hcheck]
  exact E.contextualCheckBlock_blames hbody hblames

/-- **When only the committed body marks a header**: it is marked already, or the body is not
    processed, passes `CheckBlock` or is the committed one. -/
theorem poisons_only_committed_iff (ctx : AcceptContext) (fRequested : Bool) (block : CBlock)
    (pindex : CBlockIndex) (entry : EntryFields) :
    (E.MarksFailed ctx fRequested block pindex entry →
        E.bodyCommitted block pindex.pprev = true) ↔
      E.processesBody ctx fRequested block pindex entry = false ∨
        entry.nStatus.failedValid = true ∨ accepted (E.checkBlock block true) = true ∨
        E.bodyCommitted block pindex.pprev = true := by
  constructor
  · intro h
    by_contra hnot
    simp only [not_or, Bool.not_eq_false, Bool.not_eq_true] at hnot
    obtain ⟨hprocesses, hbefore, hrejected, hforeign⟩ := hnot
    cases hcheck : E.checkBlock block true with
    | ok block' => simp [hcheck] at hrejected
    | error stop =>
      have hbody : E.checkBody block pindex.pprev = .error stop := by
        rw [checkBody, hcheck, error_bind]
      have hmarks := E.marksFailed_iff.mpr
        ⟨hbefore, hprocesses, stop, hbody, E.checkBlock_blames hcheck⟩
      rw [h hmarks] at hforeign
      cases hforeign
  · intro h hmarks
    obtain ⟨hbefore, hprocesses, -⟩ := E.marksFailed_iff.mp hmarks
    rcases h with hskipped | hmarked | haccepted | hcommitted
    · rw [hskipped] at hprocesses
      cases hprocesses
    · rw [hmarked] at hbefore
      cases hbefore
    · exact E.bodyCommitted_of_marksFailed haccepted hmarks
    · exact hcommitted

end NodeEnv

namespace Regtest

def withoutBody : CBlock :=
  { blockOn [genesis] [coinbase [0x51, 0x00] (50 * COIN)] with vtx := [] }

def withoutBodyIndex : CBlockIndex := env.blockIndex withoutBody [genesis]

def newEntry : EntryFields := { nStatus := { valid := .BLOCK_VALID_TREE }, nChainWork := 4 }

def atGenesis : AcceptContext where
  tip := env.tipIndex [genesis]
  nMinimumChainWork := 0
  acceptsAltBlock := true
  savesBlock := true

def nonFinal : CBlock :=
  blockOn [genesis] [{ filler with
    vin := filler.vin.map fun txin => { txin with nSequence := 0 }, nLockTime := 5 }]

def nonFinalIndex : CBlockIndex := env.blockIndex nonFinal [genesis]

/-- `LoadExternalBlockFile` finds an empty body; then the own body is refused. -/
theorem withoutBody_poisons :
    env.MarksFailed atGenesis true withoutBody withoutBodyIndex newEntry ∧
      env.bodyCommitted withoutBody withoutBodyIndex.pprev = false ∧
      accepted (env.loadExternalBlock atGenesis
        (blockOn [genesis] [coinbase [0x51, 0x00] (50 * COIN)]) withoutBodyIndex newEntry).1 =
          true ∧
      accepted (env.loadExternalBlock atGenesis
        (blockOn [genesis] [coinbase [0x51, 0x00] (50 * COIN)]) withoutBodyIndex
          (env.loadExternalBlock atGenesis withoutBody withoutBodyIndex newEntry).2).1 = false := by
  unfold NodeEnv.MarksFailed
  decide +kernel

end Regtest

end VBitcoin
