import VBitcoin.Coins
import VBitcoin.PopService

/-!
**Applying a block to a coins view** — `CChainState::ConnectBlock`
(`validation.cpp`) and what it calls: `Consensus::CheckTxInputs`, the sequence
locks and signature-operation costs of `consensus/tx_verify.cpp`, and
`UpdateCoins`.

A run that returns gives the view after the block and the undo data that
`WriteUndoDataForBlock` writes.
-/

namespace VBitcoin

/-! ### Reading several coins -/

namespace CCoinsViewCache

def haveAll : CCoinsViewCache → List COutPoint → Bool × CCoinsViewCache
  | c, [] => (true, c)
  | c, outpoint :: rest =>
    match c.haveCoin outpoint with
    | (true, c) => c.haveAll rest
    | (false, c) => (false, c)

def haveInputs (c : CCoinsViewCache) (tx : CTransaction) : Bool × CCoinsViewCache :=
  if tx.isCoinBase then (true, c) else c.haveAll (tx.vin.map CTxIn.prevout)

def accessAll : CCoinsViewCache → List COutPoint → List Coin × CCoinsViewCache
  | c, [] => ([], c)
  | c, outpoint :: rest =>
    let (coin, c) := c.accessCoin outpoint
    let (coins, c) := c.accessAll rest
    (coin :: coins, c)

end CCoinsViewCache

/-! ### Inputs of a transaction -/

/-- One turn of the loop of `CheckTxInputs`, for one coin spent. -/
def addValueIn (nSpendHeight : Nat) (nValueIn : Int) (coin : Coin) : Run Int := do
  require (!coin.isSpent) (.assertion "!coin.IsSpent()")
  require (!(coin.fCoinBase && (nSpendHeight : Int) - coin.nHeight < COINBASE_MATURITY))
    (.txInvalid .TX_PREMATURE_SPEND "bad-txns-premature-spend-of-coinbase"
      ("tried to spend coinbase at depth " ++ toString ((nSpendHeight : Int) - coin.nHeight)))
  let nValueIn ← addAmount nValueIn coin.out.nValue
  require (moneyRange coin.out.nValue && moneyRange nValueIn)
    (.txInvalid .TX_CONSENSUS "bad-txns-inputvalues-outofrange" "")
  pure nValueIn

/-- `FormatMoney`: units and eight decimals, with trailing zeros cut to two. -/
def formatMoney (n : Int) : String :=
  let digits := toString (n.natAbs % COIN.toNat + COIN.toNat)
  let decimals := (digits.toList.drop 1).reverse
  let kept := (decimals.take 6).dropWhile (· == '0') ++ decimals.drop 6
  (if n < 0 then "-" else "") ++ toString (n.natAbs / COIN.toNat) ++ "." ++
    String.ofList kept.reverse

variable (tx : CTransaction)

/-- `Consensus::CheckTxInputs`: the fee and the view after the reads. -/
def checkTxInputs (inputs : CCoinsViewCache) (nSpendHeight : Nat) :
    Run (Int × CCoinsViewCache) := do
  let (available, inputs) := inputs.haveInputs tx
  require available (.txInvalid .TX_MISSING_INPUTS "bad-txns-inputs-missingorspent"
    "CheckTxInputs: inputs missing/spent")
  let (coins, inputs) := inputs.accessAll (tx.vin.map CTxIn.prevout)
  let nValueIn ← coins.foldlM (addValueIn nSpendHeight) 0
  let value_out ← tx.getValueOut
  require (decide (value_out ≤ nValueIn)) (.txInvalid .TX_CONSENSUS "bad-txns-in-belowout"
    ("value in (" ++ formatMoney nValueIn ++ ") < value out (" ++ formatMoney value_out ++ ")"))
  let txfee_aux := nValueIn - value_out
  require (moneyRange txfee_aux) (.txInvalid .TX_CONSENSUS "bad-txns-fee-outofrange" "")
  pure (txfee_aux, inputs)

/-! ### Relative lock times -/

def sequenceLockStep (pindex : CBlockIndex) (locks : Int × Int) (input : CTxIn × Nat) :
    Run (Int × Int) :=
  let nSequence := input.1.nSequence.toNat
  let mask : Int := (nSequence % 2 ^ 16 : Nat)
  -- SEQUENCE_LOCKTIME_DISABLE_FLAG
  if nSequence / 2 ^ 31 % 2 = 1 then pure locks
  -- SEQUENCE_LOCKTIME_TYPE_FLAG
  else if nSequence / 2 ^ 22 % 2 = 1 then
    match pindex.getAncestor (input.2 - 1) with
    | none => .error (.undefined "block.GetAncestor(nCoinHeight - 1)")
    | some ancestor =>
      pure (locks.1, max locks.2 (ancestor.getMedianTimePast + mask * 2 ^ 9 - 1))
  else pure (max locks.1 (input.2 + mask - 1), locks.2)

/-- `SequenceLocks`, from the heights of the coins spent. -/
def sequenceLocks (verifySequence : Bool) (prevHeights : List Nat)
    (pindex : CBlockIndex) : Run Bool := do
  let locks ←
    if 2 ≤ tx.nVersion.toUInt32.toNat && verifySequence then
      (tx.vin.zip prevHeights).foldlM (sequenceLockStep pindex) (-1, -1)
    else pure (-1, -1)
  match pindex.pprev with
  | none => .error (.assertion "block.pprev")
  | some pprev =>
    pure (!(decide ((pindex.nHeight : Int) ≤ locks.1) ||
      decide ((pprev.getMedianTimePast : Int) ≤ locks.2)))

/-! ### Signature operations -/

def getP2SHSigOpCount (inputs : List (CTxIn × Coin)) : Nat :=
  (inputs.map fun input =>
    if isPayToScriptHash input.2.out.scriptPubKey then
      getSigOpCountP2SH input.2.out.scriptPubKey input.1.scriptSig
    else 0).sum

def sigOpCostOf (coins : List Coin) (flags : ScriptFlags) : Nat :=
  let inputs := tx.vin.zip coins
  getLegacySigOpCount tx * WITNESS_SCALE_FACTOR +
    (if flags.p2sh then getP2SHSigOpCount inputs * WITNESS_SCALE_FACTOR else 0) +
    (if flags.witness then
      (inputs.map fun input => countWitnessSigOps input.1.scriptSig input.2.out.scriptPubKey
        input.1.scriptWitness).sum
    else 0)

def getTransactionSigOpCost (inputs : CCoinsViewCache) (flags : ScriptFlags) :
    Run (Nat × CCoinsViewCache) :=
  if tx.isCoinBase then pure (getLegacySigOpCount tx * WITNESS_SCALE_FACTOR, inputs)
  else do
    let (coins, inputs) := inputs.accessAll (tx.vin.map CTxIn.prevout)
    require (coins.all fun coin => !coin.isSpent) (.assertion "!coin.IsSpent()")
    pure (sigOpCostOf tx coins flags, inputs)

/-! ### Updating the coins -/

abbrev CTxUndo := List Coin

/-- `CBlockUndo`: one entry for each transaction but the coinbase. -/
abbrev CBlockUndo := List CTxUndo

def spendInputs : CCoinsViewCache → List COutPoint → Run (CTxUndo × CCoinsViewCache)
  | inputs, [] => pure ([], inputs)
  | inputs, prevout :: rest =>
    match inputs.spendCoin prevout with
    | (none, _) => .error (.assertion "is_spent")
    | (some coin, inputs) => do
      let (vprevout, inputs) ← spendInputs inputs rest
      pure (coin :: vprevout, inputs)

/-- Without `check`, only a coinbase may overwrite. -/
def addCoinsFrom (txid : UInt256) (fCoinbase : Bool) (nHeight : Nat) (check : Bool) :
    Nat → List CTxOut → CCoinsViewCache → Run CCoinsViewCache
  | _, [], cache => pure cache
  | n, txout :: rest, cache => do
    let (overwrite, cache) := if check then cache.haveCoin ⟨txid, n⟩ else (fCoinbase, cache)
    let cache ← cache.addCoin ⟨txid, n⟩ ⟨txout, nHeight, fCoinbase⟩ overwrite
    addCoinsFrom txid fCoinbase nHeight check (n + 1) rest cache

namespace NodeEnv

variable (E : NodeEnv)

def addCoins (cache : CCoinsViewCache) (tx : CTransaction) (nHeight : Nat) (check : Bool) :
    Run CCoinsViewCache :=
  addCoinsFrom (E.txid tx) tx.isCoinBase nHeight check 0 tx.vout cache

def spendTransaction (tx : CTransaction) (inputs : CCoinsViewCache) :
    Run (CTxUndo × CCoinsViewCache) :=
  if tx.isCoinBase then pure ([], inputs) else spendInputs inputs (tx.vin.map CTxIn.prevout)

def updateCoins (tx : CTransaction) (inputs : CCoinsViewCache) (nHeight : Nat) :
    Run (CTxUndo × CCoinsViewCache) := do
  let (txundo, inputs) ← spendTransaction tx inputs
  let inputs ← E.addCoins inputs tx nHeight false
  pure (txundo, inputs)

/-! ### BIP30 -/

def BIP34_IMPLIES_BIP30_LIMIT : Nat := 1983702

/-- The two blocks that were allowed to overwrite a coinbase. -/
def bip30Exceptions : List (Nat × UInt256) :=
  [(91842, 0x00000000000a4d0a398161ffc163c503763b1f4360639393e0e4c8e300e0caec),
    (91880, 0x00000000000743f190a18c5577a3c2d2a1f610ae9601ac046a38084ccb7cd721)]

def enforceBIP30 (pindex pprev : CBlockIndex) : Bool :=
  let fEnforceBIP30 := !bip30Exceptions.contains (pindex.nHeight, pindex.getBlockHash)
  let onKnownChain := (pprev.getAncestor E.consensus.BIP34Height).any fun pindexBIP34height =>
    pindexBIP34height.getBlockHash == E.consensus.BIP34Hash
  (fEnforceBIP30 && !onKnownChain) || BIP34_IMPLIES_BIP30_LIMIT ≤ pindex.nHeight

def createdBy (tx : CTransaction) : List COutPoint :=
  (List.range tx.vout.length).map fun o => ⟨E.txid tx, o⟩

/-- The BIP30 loop: no outpoint may have a coin yet. -/
def checkBIP30 : CCoinsViewCache → List COutPoint → Run CCoinsViewCache
  | view, [] => pure view
  | view, outpoint :: rest =>
    match view.haveCoin outpoint with
    | (true, _) => .error (.blockInvalid .BLOCK_CONSENSUS "bad-txns-BIP30" "")
    | (false, view) => checkBIP30 view rest

/-! ### The transactions of a block -/

structure ConnectState where
  view : CCoinsViewCache
  nFees : Int := 0
  nSigOpsCost : Nat := 0
  /-- The undo data of the transactions so far, the coinbase included. -/
  txundos : List CTxUndo := []
  scriptsOk : Bool := true

def asBlockFailure {α : Type} : Run α → Run α
  | .error (.txInvalid _ reason debug) => .error (.blockInvalid .BLOCK_CONSENSUS reason debug)
  | result => result

/-- The checks on the coins that a transaction spends; a coinbase spends none. -/
def connectInputs (pindex : CBlockIndex) (s : ConnectState) (tx : CTransaction) :
    Run ConnectState :=
  if tx.isCoinBase then pure s
  else do
    let (txfee, view) ← asBlockFailure (checkTxInputs tx s.view pindex.nHeight)
    let nFees ← addAmount s.nFees txfee
    require (moneyRange nFees)
      (.blockInvalid .BLOCK_CONSENSUS "bad-txns-accumulated-fee-outofrange" "")
    let (coins, view) := view.accessAll (tx.vin.map CTxIn.prevout)
    let final ← sequenceLocks tx (E.consensus.CSVHeight ≤ pindex.nHeight)
      (coins.map Coin.nHeight) pindex
    require final (.blockInvalid .BLOCK_CONSENSUS "bad-txns-nonfinal" "")
    pure { s with view, nFees }

def queueScriptChecks (pindex : CBlockIndex) (s : ConnectState) (tx : CTransaction) :
    ConnectState :=
  if tx.isCoinBase || !E.fScriptChecks pindex then s
  else
    let (coins, view) := s.view.accessAll (tx.vin.map CTxIn.prevout)
    { s with
      view
      scriptsOk := s.scriptsOk && E.checkInputs tx coins (E.getBlockScriptFlags pindex) }

def connectTransaction (pindex : CBlockIndex) (s : ConnectState) (tx : CTransaction) :
    Run ConnectState := do
  let s ← E.connectInputs pindex s tx
  let (cost, view) ← getTransactionSigOpCost tx s.view (E.getBlockScriptFlags pindex)
  let nSigOpsCost := s.nSigOpsCost + cost
  require (nSigOpsCost ≤ MAX_BLOCK_SIGOPS_COST)
    (.blockInvalid .BLOCK_CONSENSUS "bad-blk-sigops" "")
  let s := E.queueScriptChecks pindex { s with view, nSigOpsCost } tx
  let (txundo, view) ← E.updateCoins tx s.view pindex.nHeight
  pure { s with view, txundos := s.txundos ++ [txundo] }

/-! ### The block -/

variable (block : CBlock)

/-- The first test stops a block only when *both* validators reject it. -/
def recheckBlock (pprev : Option CBlockIndex) (fJustCheck : Bool) : Run Unit :=
  match E.checkBlock block (!fJustCheck) with
  | .ok _ => pure ()
  | .error (.blockInvalid _ _ _) =>
    match E.contextualCheckBlock block pprev true with
    | .ok _ => pure ()
    | .error (.blockInvalid .BLOCK_MUTATED _ _) => .error (.error
        "Corrupt block found indicating potential hardware failure; shutting down")
    | .error stop => .error stop
  | .error stop => .error stop

/-- The PoP rules, in force once the active tip crossed the bootstrap block. -/
def checkPop (pindex : CBlockIndex) (nFees : Int) (tip : Option CBlockIndex) : Run Unit :=
  if E.isCrossedBootstrapBlock tip then
    match block.vtx with
    | [] => .error (.undefined "block.vtx[0]")
    | coinbase :: _ => do
      E.checkCoinbaseTxWithPopRewards coinbase nFees pindex
      require (E.pop.setState pindex.getBlockHash)
        (.blockInvalid .BLOCK_CONSENSUS "bad-block-pop-state"
          ("Block " ++ pindex.getBlockHash.toHex ++ " is POP invalid: "))
  else pure ()

def connectGenesis (pindex : CBlockIndex) (view : CCoinsViewCache)
    (fJustCheck : Bool) : Run (CCoinsViewCache × CBlockUndo) :=
  match block.vtx with
  | [tx] => do
    let (_, view) ← E.updateCoins tx view pindex.nHeight
    pure (if fJustCheck then view else view.setBestBlock pindex.getBlockHash, [])
  | _ => .error (.assertion "block.vtx.size() == 1")

def connectTransactions (pindex pprev : CBlockIndex) (view : CCoinsViewCache)
    (tip : Option CBlockIndex) (fJustCheck : Bool) : Run (CCoinsViewCache × CBlockUndo) := do
  let view ← checkBIP30 view
    (if E.enforceBIP30 pindex pprev then block.vtx.flatMap E.createdBy else [])
  let s ← block.vtx.foldlM (E.connectTransaction pindex) { view }
  E.checkPop block pindex s.nFees tip
  require s.scriptsOk (.blockInvalid .BLOCK_CONSENSUS "block-validation-failed" "")
  pure (if fJustCheck then s.view else s.view.setBestBlock pindex.getBlockHash, s.txundos.tail)

def applyBlock (pindex : CBlockIndex) (view : CCoinsViewCache)
    (tip : Option CBlockIndex) (fJustCheck : Bool) : Run (CCoinsViewCache × CBlockUndo) := do
  let (bestBlock, view) := view.getBestBlock
  require ((pindex.pprev.map CBlockIndex.getBlockHash).getD 0 == bestBlock)
    (.assertion "hashPrevBlock == view.GetBestBlock()")
  if E.blockHash block.header == E.consensus.hashGenesisBlock then
    E.connectGenesis block pindex view fJustCheck
  else
    match pindex.pprev with
    | none => .error (.assertion "pindex->pprev")
    | some pprev => E.connectTransactions block pindex pprev view tip fJustCheck

def connectBlock (pindex : CBlockIndex) (view : CCoinsViewCache)
    (tip : Option CBlockIndex) (fJustCheck : Bool) : Run (CCoinsViewCache × CBlockUndo) := do
  require (pindex.getBlockHash == E.blockHash block.header)
    (.assertion "*pindex->phashBlock == block.GetHash()")
  E.recheckBlock block pindex.pprev fJustCheck
  E.applyBlock block pindex view tip fJustCheck

end NodeEnv

end VBitcoin
