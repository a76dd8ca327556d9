import VBitcoin.ConnectBlock

/-!
**Block templates** — `BlockAssembler::CreateNewBlock` (`miner.cpp`) up to the block that it
hands to `TestBlockValidity`, with the witness commitment (`GenerateCoinbaseCommitment`,
`validation.cpp`).  The packages come in the order in which the mempool offers them; nothing
depends on how they are ranked.
-/

namespace VBitcoin

/-! ### Selecting packages -/

structure CTxMemPoolEntry where
  tx : CTransaction
  nFee : Int
  nTxWeight : Nat
  sigOpCost : Nat
  deriving DecidableEq, Repr

def getVirtualTransactionSize (nWeight nSigOpCost bytes_per_sigop : Nat) : Nat :=
  (max nWeight (nSigOpCost * bytes_per_sigop) + WITNESS_SCALE_FACTOR - 1) / WITNESS_SCALE_FACTOR

def CTxMemPoolEntry.getTxSize (entry : CTxMemPoolEntry) (nBytesPerSigOp : Nat) : Nat :=
  getVirtualTransactionSize entry.nTxWeight entry.sigOpCost nBytesPerSigOp

/-- With its ancestors not in the block, and the mempool's totals. -/
structure Package where
  entries : List CTxMemPoolEntry
  packageSize : Nat
  packageSigOpsCost : Nat

structure BlockAssembler where
  nBlockMaxWeight : Nat
  nHeight : Nat
  nLockTimeCutoff : Nat
  fIncludeWitness : Bool
  inBlock : List CTxMemPoolEntry
  nBlockWeight : Nat
  nBlockSigOpsCost : Nat
  nFees : Int

namespace BlockAssembler

def limitWeight (nBlockMaxWeight : Nat) : Nat :=
  max 4000 (min (MAX_BLOCK_WEIGHT - 4000) nBlockMaxWeight)

def reset (nBlockMaxWeight nHeight nLockTimeCutoff : Nat) (fIncludeWitness : Bool) :
    BlockAssembler where
  nBlockMaxWeight := limitWeight nBlockMaxWeight
  nHeight
  nLockTimeCutoff
  fIncludeWitness
  inBlock := []
  -- reserved for the coinbase
  nBlockWeight := 4000
  nBlockSigOpsCost := 400
  nFees := 0

variable (a : BlockAssembler)

def testPackage (packageSize packageSigOpsCost : Nat) : Bool :=
  a.nBlockWeight + WITNESS_SCALE_FACTOR * packageSize < a.nBlockMaxWeight &&
    a.nBlockSigOpsCost + packageSigOpsCost < MAX_BLOCK_SIGOPS_COST

def testPackageTransactions (package : List CTxMemPoolEntry) : Bool :=
  package.all fun entry => isFinalTx entry.tx a.nHeight a.nLockTimeCutoff &&
    (a.fIncludeWitness || !entry.tx.hasWitness)

def addToBlock (entry : CTxMemPoolEntry) : BlockAssembler :=
  { a with
    inBlock := a.inBlock ++ [entry]
    nBlockWeight := a.nBlockWeight + entry.nTxWeight
    nBlockSigOpsCost := a.nBlockSigOpsCost + entry.sigOpCost
    nFees := a.nFees + entry.nFee }

def addPackage (package : Package) : BlockAssembler :=
  if !a.testPackage package.packageSize package.packageSigOpsCost then a
  else if !a.testPackageTransactions package.entries then a
  else package.entries.foldl addToBlock a

def addPackageTxs (packages : List Package) : BlockAssembler :=
  packages.foldl addPackage a

end BlockAssembler

/-! ### The witness commitment of a template -/

/-- The reserved value of a template: `std::vector<unsigned char>(32, 0x00)`. -/
def templateNonce : Bytes := List.replicate 32 0

def commitmentScript (commitment : UInt256) : CScript :=
  [OP_RETURN, 0x24, 0xaa, 0x21, 0xa9, 0xed] ++ serializeUInt256 commitment

def setNonce : List CTxIn → List CTxIn
  | [] => []
  | txin :: rest => { txin with scriptWitness := [templateNonce] } :: rest

namespace NodeEnv

variable (E : NodeEnv)

def updateUncommittedBlockStructures (block : CBlock) (pindexPrev : Option CBlockIndex) : CBlock :=
  match block.vtx with
  | [] => block
  | coinbase :: rest =>
    if (getWitnessCommitmentIndex block).isSome && E.isWitnessEnabled pindexPrev &&
        !coinbase.hasWitness then
      { block with vtx := { coinbase with vin := setNonce coinbase.vin } :: rest }
    else block

/-- The output that `GenerateCoinbaseCommitment` adds to the coinbase. -/
def addCommitment (block : CBlock) : CBlock :=
  match block.vtx with
  | [] => block
  | coinbase :: rest =>
    let out : CTxOut := ⟨0, commitmentScript (E.witnessCommitment block templateNonce)⟩
    { block with vtx := { coinbase with vout := coinbase.vout ++ [out] } :: rest }

def generateCoinbaseCommitment (block : CBlock) (pindexPrev : Option CBlockIndex) : CBlock :=
  let block :=
    if E.consensus.SegwitHeight != INT_MAX && (getWitnessCommitmentIndex block).isNone then
      E.addCommitment block
    else block
  E.updateUncommittedBlockStructures block pindexPrev

/-! ### CreateNewBlock -/

def powCoinbase (nHeight : Nat) (scriptPubKeyIn : CScript) (nValue : Int) : CTransaction where
  vin := [{
    prevout := COutPoint.null
    scriptSig := pushInt nHeight ++ [OP_0]
    nSequence := SEQUENCE_FINAL }]
  vout := [⟨nValue, scriptPubKeyIn⟩]

def payingCoinbase (pindexPrev : CBlockIndex) (scriptPubKeyIn : CScript) (nFees : Int) :
    Run CTransaction := do
  let nHeight := pindexPrev.nHeight + 1
  let nValue ← addAmount nFees (E.getBlockSubsidy nHeight)
  let coinbaseTx := powCoinbase nHeight scriptPubKeyIn nValue
  if E.isPopActive nHeight then E.addPopPayoutsIntoCoinbaseTx coinbaseTx pindexPrev
  else pure coinbaseTx

/-- What a template takes from the clock, the options and the PoP mempool. -/
structure TemplateContext where
  nVersion : Int32
  nTime : UInt32
  nBits : UInt32
  popData : PopData
  nBlockMaxWeight : Nat
  nLockTimeCutoff : Nat

def setPopBit (nVersion : Int32) : Int32 := nVersion ||| 0x80000

variable (context : TemplateContext)

def selectTxs (pindexPrev : CBlockIndex) (packages : List Package) : BlockAssembler :=
  (BlockAssembler.reset context.nBlockMaxWeight (pindexPrev.nHeight + 1) context.nLockTimeCutoff
    (E.isWitnessEnabled (some pindexPrev))).addPackageTxs packages

def templatePop (nHeight : Nat) : PopData × Int32 :=
  if E.isPopActive nHeight then
    (context.popData,
      if context.popData.isEmpty then context.nVersion else setPopBit context.nVersion)
  else ({}, context.nVersion)

/-- `CreateNewBlock`, up to the block that `TestBlockValidity` sees. -/
def createNewBlock (pindexPrev : CBlockIndex)
    (scriptPubKeyIn : CScript) (packages : List Package) : Run CBlock := do
  let nHeight := pindexPrev.nHeight + 1
  let selected := E.selectTxs context pindexPrev packages
  let (popData, nVersion) := E.templatePop context nHeight
  let coinbaseTx ← E.payingCoinbase pindexPrev scriptPubKeyIn selected.nFees
  let header : CBlockHeader := {
    nVersion
    hashPrevBlock := pindexPrev.getBlockHash
    hashMerkleRoot := 0
    nTime := context.nTime
    nBits := context.nBits
    nNonce := 0 }
  pure (E.generateCoinbaseCommitment
    { header, vtx := coinbaseTx :: selected.inBlock.map CTxMemPoolEntry.tx, popData }
    (some pindexPrev))

/-! ### The shape of a template -/

def templateOutputs (nHeight : Nat) (scriptPubKeyIn : CScript) (nFees : Int)
    (rewards : PoPRewards) : List CTxOut :=
  ⟨nFees + E.getBlockSubsidy nHeight, scriptPubKeyIn⟩ ::
    if E.isPopActive nHeight then rewards.entries.map fun reward => ⟨reward.2, reward.1⟩ else []

variable (vout : List CTxOut)

def hasCommitment : Bool :=
  vout.any fun txout => isWitnessCommitment txout.scriptPubKey

def commits : Bool :=
  E.consensus.SegwitHeight != INT_MAX && !hasCommitment vout

def reserves (pindexPrev : CBlockIndex) : Bool :=
  (hasCommitment vout || E.commits vout) && E.isWitnessEnabled (some pindexPrev)

def templateCoinbase (pindexPrev : CBlockIndex) (vout : List CTxOut) (commitment : UInt256) :
    CTransaction where
  vin := [{
    prevout := COutPoint.null
    scriptSig := pushInt (pindexPrev.nHeight + 1) ++ [OP_0]
    nSequence := SEQUENCE_FINAL
    scriptWitness := if E.reserves vout pindexPrev then [templateNonce] else [] }]
  vout := vout ++ if E.commits vout then [⟨0, commitmentScript commitment⟩] else []

theorem commitmentIndexFrom_isSome : ∀ (o : Nat) (commitpos : Option Nat),
    (commitmentIndexFrom o vout commitpos).isSome = (commitpos.isSome || hasCommitment vout) := by
  induction vout with
  | nil => intro o commitpos; simp [commitmentIndexFrom, hasCommitment]
  | cons txout rest ih =>
    intro o commitpos
    rw [commitmentIndexFrom, ih]
    simp only [hasCommitment, List.any_cons]
    split
    · rename_i hshape
      simp [hshape]
    · rename_i hshape
      simp [hshape]

theorem isWitnessCommitment_commitmentScript (commitment : UInt256) :
    isWitnessCommitment (commitmentScript commitment) = true := by
  simp [isWitnessCommitment, commitmentScript, serializeUInt256]

variable {pindexPrev : CBlockIndex} {scriptPubKeyIn : CScript}

variable {rewards : PoPRewards} {block : CBlock}

theorem payingCoinbase_eq_ok {nFees : Int} {tx : CTransaction}
    (hrewards : E.isPopActive (pindexPrev.nHeight + 1) = true →
      E.getPopRewards pindexPrev = .ok rewards) :
    E.payingCoinbase pindexPrev scriptPubKeyIn nFees = .ok tx ↔
      (∃ nValue, addAmount nFees (E.getBlockSubsidy (pindexPrev.nHeight + 1)) = .ok nValue) ∧
        tx = { powCoinbase (pindexPrev.nHeight + 1) scriptPubKeyIn 0 with
          vout := E.templateOutputs (pindexPrev.nHeight + 1) scriptPubKeyIn nFees rewards } := by
  unfold payingCoinbase
  simp only [bind_eq_ok]
  constructor
  · rintro ⟨nValue, hvalue, h⟩
    refine ⟨⟨nValue, hvalue⟩, ?_⟩
    rw [addAmount_eq_ok] at hvalue
    by_cases hpop : E.isPopActive (pindexPrev.nHeight + 1) = true
    · simp only [hpop, if_true, addPopPayoutsIntoCoinbaseTx, hrewards hpop, ok_bind, bind_eq_ok,
        require_eq_ok, exists_const, pure_eq_ok_iff] at h
      rw [← h.2, templateOutputs, if_pos hpop, hvalue.1]
      rfl
    · simp only [hpop, Bool.false_eq_true, if_false, pure_eq_ok_iff] at h
      rw [← h, templateOutputs, if_neg hpop, hvalue.1]
      rfl
  · rintro ⟨⟨nValue, hvalue⟩, rfl⟩
    refine ⟨nValue, hvalue, ?_⟩
    rw [addAmount_eq_ok] at hvalue
    by_cases hpop : E.isPopActive (pindexPrev.nHeight + 1) = true
    · simp only [hpop, if_true, addPopPayoutsIntoCoinbaseTx, hrewards hpop, ok_bind,
        templateOutputs, hvalue.1]
      rfl
    · simp only [hpop, Bool.false_eq_true, if_false, templateOutputs, hvalue.1]
      rfl

theorem generateCoinbaseCommitment_eq
    {vout : List CTxOut} {rest : List CTransaction} (hvtx : block.vtx =
      { powCoinbase (pindexPrev.nHeight + 1) scriptPubKeyIn 0 with vout := vout } :: rest) :
    E.generateCoinbaseCommitment block (some pindexPrev) =
      { block with
        vtx := E.templateCoinbase pindexPrev vout (E.witnessCommitment block templateNonce) ::
          rest } := by
  have hindex : (getWitnessCommitmentIndex block).isSome = hasCommitment vout := by
    simp [getWitnessCommitmentIndex, hvtx, commitmentIndexFrom_isSome]
  have hnone : (getWitnessCommitmentIndex block).isNone = !hasCommitment vout := by
    rw [← hindex]
    cases getWitnessCommitmentIndex block <;> rfl
  obtain ⟨header, vtx, popData, fChecked⟩ := block
  dsimp only at hvtx
  subst hvtx
  unfold generateCoinbaseCommitment
  simp only [hnone]
  by_cases hcommits : E.commits vout = true
  · have hadd : (E.consensus.SegwitHeight != INT_MAX && !hasCommitment vout) = true := hcommits
    simp only [hadd, if_true, updateUncommittedBlockStructures, addCommitment,
      getWitnessCommitmentIndex, commitmentIndexFrom_isSome]
    have hshape : ∀ commitment, hasCommitment (vout ++
        [⟨0, commitmentScript commitment⟩]) = true := by
      intro commitment
      simp [hasCommitment, isWitnessCommitment_commitmentScript]
    simp only [hshape, templateCoinbase, reserves, hcommits, if_true]
    cases E.isWitnessEnabled (some pindexPrev) <;>
      simp [powCoinbase, CTransaction.hasWitness, setNonce]
  · have hadd : (E.consensus.SegwitHeight != INT_MAX && !hasCommitment vout) = false := by
      simpa [commits] using hcommits
    have hcommits' : E.commits vout = false := by simpa using hcommits
    simp only [hadd, Bool.false_eq_true, if_false, updateUncommittedBlockStructures, hindex,
      templateCoinbase, reserves, hcommits', Bool.or_false]
    cases hasCommitment vout <;> cases E.isWitnessEnabled (some pindexPrev) <;>
      simp [powCoinbase, CTransaction.hasWitness, setNonce]

def templateCommitment (txs : List CTransaction) : UInt256 :=
  E.hash256 (serializeUInt256 (E.computeMerkleRoot (0 :: txs.map E.wtxid)).1 ++ templateNonce)

def templateBlock (pindexPrev : CBlockIndex)
    (scriptPubKeyIn : CScript) (packages : List Package) (rewards : PoPRewards) : CBlock :=
  let nHeight := pindexPrev.nHeight + 1
  let selected := E.selectTxs context pindexPrev packages
  let txs := selected.inBlock.map CTxMemPoolEntry.tx
  let vout := E.templateOutputs nHeight scriptPubKeyIn selected.nFees rewards
  { header := {
      nVersion := (E.templatePop context nHeight).2
      hashPrevBlock := pindexPrev.getBlockHash
      hashMerkleRoot := 0
      nTime := context.nTime
      nBits := context.nBits
      nNonce := 0 }
    vtx := E.templateCoinbase pindexPrev vout (E.templateCommitment txs) :: txs
    popData := (E.templatePop context nHeight).1 }

/-- **What `CreateNewBlock` assembles**, unless the miner's output overflows. -/
theorem createNewBlock_eq_ok {context : TemplateContext} {packages : List Package}
    (hrewards : E.isPopActive (pindexPrev.nHeight + 1) = true →
      E.getPopRewards pindexPrev = .ok rewards) :
    E.createNewBlock context pindexPrev scriptPubKeyIn packages = .ok block ↔
      (∃ nValue, addAmount (E.selectTxs context pindexPrev packages).nFees
        (E.getBlockSubsidy (pindexPrev.nHeight + 1)) = .ok nValue) ∧
      block = E.templateBlock context pindexPrev scriptPubKeyIn packages rewards := by
  unfold createNewBlock
  simp only [bind_eq_ok, E.payingCoinbase_eq_ok hrewards, pure_eq_ok_iff]
  constructor
  · rintro ⟨tx, ⟨hvalue, rfl⟩, h⟩
    refine ⟨hvalue, ?_⟩
    rw [← h, E.generateCoinbaseCommitment_eq rfl]
    rfl
  · rintro ⟨hvalue, rfl⟩
    refine ⟨_, ⟨hvalue, rfl⟩, ?_⟩
    rw [E.generateCoinbaseCommitment_eq rfl]
    rfl

end NodeEnv

end VBitcoin
