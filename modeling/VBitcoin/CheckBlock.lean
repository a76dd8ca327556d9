import VBitcoin.Merkle

/-!
**The rules that need no coins** — `CheckTransaction` (`consensus/tx_check.cpp`),
`CheckBlock` and `ContextualCheckBlock` (`validation.cpp`), proof of work
(`pow_common.cpp`) and the witness commitment.

The top-level merkle root is checked in `ContextualCheckBlock`: it needs the
height of the block.
-/

namespace VBitcoin

/-! ### Transactions -/

def checkOutputValue (nValueOut : Int) (txout : CTxOut) : Run Int := do
  require (0 ≤ txout.nValue) (.txInvalid .TX_CONSENSUS "bad-txns-vout-negative" "")
  require (txout.nValue ≤ MAX_MONEY) (.txInvalid .TX_CONSENSUS "bad-txns-vout-toolarge" "")
  let nValueOut ← addAmount nValueOut txout.nValue
  require (moneyRange nValueOut) (.txInvalid .TX_CONSENSUS "bad-txns-txouttotal-toolarge" "")
  pure nValueOut

variable (tx : CTransaction)

def checkTransaction : Run Unit := do
  require (!tx.vin.isEmpty) (.txInvalid .TX_CONSENSUS "bad-txns-vin-empty" "")
  require (!tx.vout.isEmpty) (.txInvalid .TX_CONSENSUS "bad-txns-vout-empty" "")
  require (tx.strippedSize * WITNESS_SCALE_FACTOR ≤ MAX_BLOCK_WEIGHT)
    (.txInvalid .TX_CONSENSUS "bad-txns-oversize" "")
  let _ ← tx.vout.foldlM checkOutputValue 0
  require (decide (tx.vin.map CTxIn.prevout).Nodup)
    (.txInvalid .TX_CONSENSUS "bad-txns-inputs-duplicate" "")
  if tx.isCoinBase then
    require (tx.vin.all fun txin => 2 ≤ txin.scriptSig.length && txin.scriptSig.length ≤ 100)
      (.txInvalid .TX_CONSENSUS "bad-cb-length" "")
  else
    require (tx.vin.all fun txin => !txin.prevout.isNull)
      (.txInvalid .TX_CONSENSUS "bad-txns-prevout-null" "")

def LOCKTIME_THRESHOLD : Nat := 500000000
def SEQUENCE_FINAL : UInt32 := 0xffffffff

def isFinalTx (nBlockHeight nBlockTime : Nat) : Bool :=
  tx.nLockTime == 0 ||
    tx.nLockTime.toNat <
      (if tx.nLockTime.toNat < LOCKTIME_THRESHOLD then nBlockHeight else nBlockTime) ||
    tx.vin.all fun txin => txin.nSequence == SEQUENCE_FINAL

def getLegacySigOpCount : Nat :=
  (tx.vin.map fun txin => getSigOpCount txin.scriptSig false).sum +
    (tx.vout.map fun txout => getSigOpCount txout.scriptPubKey false).sum

/-! ### Proof of work -/

/-- `arith_uint256::SetCompact`: target, sign and overflow. -/
def setCompact (nCompact : UInt32) : Nat × Bool × Bool :=
  let nSize := nCompact.toNat / 2 ^ 24
  let word := nCompact.toNat % 2 ^ 23
  let nWord := if nSize ≤ 3 then word / 2 ^ (8 * (3 - nSize)) else word
  let target := if nSize ≤ 3 then nWord else nWord * 2 ^ (8 * (nSize - 3)) % 2 ^ 256
  let fNegative := nWord != 0 && nCompact.toNat / 2 ^ 23 % 2 == 1
  let fOverflow := nWord != 0 &&
    (34 < nSize || (0xff < nWord && 33 < nSize) || (0xffff < nWord && 32 < nSize))
  (target, fNegative, fOverflow)

def checkProofOfWork (hash : UInt256) (nBits : UInt32) (powLimit : Nat) : Bool :=
  let (bnTarget, fNegative, fOverflow) := setCompact nBits
  !fNegative && bnTarget != 0 && !fOverflow && bnTarget ≤ powLimit && hash.toNat ≤ bnTarget

/-! ### The witness commitment -/

def isWitnessCommitment (script : CScript) : Bool :=
  38 ≤ script.length && script.take 6 == [OP_RETURN, 0x24, 0xaa, 0x21, 0xa9, 0xed]

/-- A later match replaces an earlier one. -/
def commitmentIndexFrom : Nat → List CTxOut → Option Nat → Option Nat
  | _, [], commitpos => commitpos
  | o, txout :: rest, commitpos =>
    commitmentIndexFrom (o + 1) rest
      (if isWitnessCommitment txout.scriptPubKey then some o else commitpos)

def getWitnessCommitmentIndex (block : CBlock) : Option Nat :=
  match block.vtx with
  | [] => none
  | coinbase :: _ => commitmentIndexFrom 0 coinbase.vout none

namespace NodeEnv

variable (E : NodeEnv)

/-! ### Blocks without context -/

def checkBlockHeader (header : CBlockHeader) (fCheckPOW : Bool) : Run Unit :=
  require (!fCheckPOW ||
      checkProofOfWork (E.blockHash header) header.nBits E.consensus.powLimit)
    (.blockInvalid .BLOCK_INVALID_HEADER "high-hash" "proof of work failed")

def checkBlockTransaction (tx : CTransaction) : Run Unit :=
  match checkTransaction tx with
  | .error (.txInvalid _ reason debug) =>
    .error (.blockInvalid .BLOCK_CONSENSUS reason
      ("Transaction check failed (tx hash " ++ (E.txid tx).toHex ++ ") " ++ debug))
  | result => result

variable (block : CBlock)

/-- The version bit says whether the block has PoP data, which must be valid. -/
def checkPopData : Run Unit := do
  require (!(block.header.hasPopBit && block.popData.isEmpty))
    (.blockInvalid .BLOCK_CONSENSUS "bad-block-pop-version"
      "POP bit is set, but pop data is empty")
  require (!(!block.header.hasPopBit && !block.popData.isEmpty))
    (.blockInvalid .BLOCK_CONSENSUS "bad-block-pop-version"
      "POP bit is NOT set, and pop data is NOT empty")
  onlyIf block.header.hasPopBit
    (match E.pop.check block.popData with
    | some (path, debug) => .error (.blockInvalid .BLOCK_CONSENSUS ("bad-block-pop-" ++ path) debug)
    | none => .ok ())

/-- The rules of `CheckBlock`, once the memo `fChecked` is not taken. -/
def checkBlockRules (fCheckPOW : Bool) : Run Unit := do
  E.checkBlockHeader block.header fCheckPOW
  E.checkPopData block
  require (!(block.vtx.isEmpty || MAX_BLOCK_WEIGHT < block.vtx.length * WITNESS_SCALE_FACTOR ||
      (MAX_BLOCK_WEIGHT : Int) < E.getBlockWeight block))
    (.blockInvalid .BLOCK_CONSENSUS "bad-blk-length" "size limits failed")
  require (block.vtx.head?.any CTransaction.isCoinBase)
    (.blockInvalid .BLOCK_CONSENSUS "bad-cb-missing" "first tx is not coinbase")
  require (block.vtx.tail.all fun tx => !tx.isCoinBase)
    (.blockInvalid .BLOCK_CONSENSUS "bad-cb-multiple" "more than one coinbase")
  block.vtx.forM E.checkBlockTransaction
  require ((block.vtx.map getLegacySigOpCount).sum * WITNESS_SCALE_FACTOR ≤ MAX_BLOCK_SIGOPS_COST)
    (.blockInvalid .BLOCK_CONSENSUS "bad-blk-sigops" "out-of-bounds SigOpCount")

/-- `CheckBlock`: the block it leaves behind remembers a full check. -/
def checkBlock (fCheckPOW : Bool) : Run CBlock :=
  if block.fChecked then pure block
  else do
    E.checkBlockRules block fCheckPOW
    pure { block with fChecked := block.fChecked || fCheckPOW }

/-! ### Blocks in the context of their predecessors -/

/-- `vtx[0]->vin[0]` is read without a check that it exists. -/
def checkCoinbaseHeight (nHeight : Nat) : Run Unit :=
  match block.vtx.head?.bind fun coinbase => coinbase.vin.head? with
  | none => .error (.undefined "block.vtx[0]->vin[0]")
  | some txin =>
    require (txin.scriptSig.take (pushInt nHeight).length == pushInt nHeight)
      (.blockInvalid .BLOCK_CONSENSUS "bad-cb-height" "block height mismatch in coinbase")

/-- The witness root hashed with a reserved value: what a commitment commits to. -/
def witnessCommitment (reserved : Bytes) : UInt256 :=
  E.hash256 (serializeUInt256 (E.blockWitnessMerkleRoot block) ++ reserved)

/-- `fHaveWitness`, or a mutation of the block. -/
def checkCommitmentAt (commitpos : Nat) : Run Bool :=
  match block.vtx with
  | [] => .error (.undefined "block.vtx[0]")
  | coinbase :: _ =>
    match coinbase.vin with
    | [] => .error (.undefined "block.vtx[0]->vin[0]")
    | txin :: _ =>
      match txin.scriptWitness with
      | [reserved] =>
        if reserved.length = 32 then do
          require (coinbase.vout[commitpos]?.any fun txout =>
              serializeUInt256 (E.witnessCommitment block reserved) ==
                (txout.scriptPubKey.drop 6).take 32)
            (.blockInvalid .BLOCK_MUTATED "bad-witness-merkle-match"
              "ContextualCheckBlock : witness merkle commitment mismatch")
          pure true
        else .error (.blockInvalid .BLOCK_MUTATED "bad-witness-nonce-size"
          "ContextualCheckBlock : invalid witness reserved value size")
      | _ => .error (.blockInvalid .BLOCK_MUTATED "bad-witness-nonce-size"
          "ContextualCheckBlock : invalid witness reserved value size")

/-- Without a right commitment no transaction may carry a witness. -/
def checkWitnessCommitment (nHeight : Nat) : Run Unit := do
  let fHaveWitness ←
    if E.consensus.SegwitHeight ≤ nHeight then
      match getWitnessCommitmentIndex block with
      | some commitpos => E.checkCommitmentAt block commitpos
      | none => pure false
    else pure false
  require (fHaveWitness || block.vtx.all fun tx => !tx.hasWitness)
    (.blockInvalid .BLOCK_MUTATED "unexpected-witness"
      "ContextualCheckBlock : unexpected witness data found")

def contextualCheckBlock (pindexPrev : Option CBlockIndex)
    (fCheckMerkleRoot : Bool) : Run Unit := do
  let nHeight := heightAfter pindexPrev
  let medianTimePast : Bool := E.consensus.CSVHeight ≤ nHeight
  require (!medianTimePast || pindexPrev.isSome) (.assertion "pindexPrev != nullptr")
  onlyIf fCheckMerkleRoot (E.verifyTopLevelMerkleRoot block pindexPrev)
  let nLockTimeCutoff :=
    match medianTimePast, pindexPrev with
    | true, some pindexPrev => pindexPrev.getMedianTimePast
    | _, _ => block.header.nTime.toNat
  require (block.vtx.all fun tx => isFinalTx tx nHeight nLockTimeCutoff)
    (.blockInvalid .BLOCK_CONSENSUS "bad-txns-nonfinal" "non-final transaction")
  onlyIf (E.consensus.BIP34Height ≤ nHeight) (checkCoinbaseHeight block nHeight)
  E.checkWitnessCommitment block nHeight
  require (decide (E.getBlockWeight block ≤ MAX_BLOCK_WEIGHT))
    (.blockInvalid .BLOCK_CONSENSUS "bad-blk-weight" "ContextualCheckBlock : weight limit failed")

end NodeEnv

end VBitcoin
