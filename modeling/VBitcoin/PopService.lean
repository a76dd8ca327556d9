import VBitcoin.CheckBlock
import VBitcoin.OrderedMap

/-!
**PoP rewards** — `vbk/pop_service.cpp`: the rewards due after a block, the
coinbase outputs that pay them, and the rule that a coinbase pays them.
-/

namespace VBitcoin

/-- The order of `std::map<CScript, …>`: shorter scripts first (`prevector`). -/
def scriptLess (a b : CScript) : Bool :=
  a.length < b.length ||
    (a.length == b.length && List.lex a b fun x y => x < y)

abbrev PoPRewards := OrderedMap CScript Int

def hexStr (bytes : Bytes) : String :=
  String.join (bytes.map fun byte => byte.toBitVec.toHex)

def INT64_MAX : Int := 2 ^ 63 - 1

namespace NodeEnv

variable (E : NodeEnv) (tip : CBlockIndex)

/-- The payout of one reward coefficient at the height after `tip`. -/
def popPayout (coeff : Nat) : Nat :=
  coeff * (E.getSubsidyMultiplier (tip.nHeight + 1)).toNat / 2 / COIN.toNat

def addReward (result : PoPRewards) (reward : Bytes × Nat) : Run PoPRewards :=
  let payout := E.popPayout tip reward.2
  if 0 < payout then do
    require (decide ((payout : Int) ≤ INT64_MAX)) (.assertion "overflow!")
    pure (result.insert scriptLess reward.1 payout)
  else pure result

def getPopRewards : Run PoPRewards :=
  if !E.paramsPopActive tip.nHeight || tip.nHeight < E.pop.endorsementSettlementInterval ||
      tip.nHeight < E.pop.popPayoutDelay then pure OrderedMap.empty
  else do
    require (E.pop.setState tip.getBlockHash) (.assertion "setState")
    match E.pop.getPopPayout tip.getBlockHash with
    | none => throw (.assertion "getPopPayout")
    | some rewards => rewards.foldlM (E.addReward tip) OrderedMap.empty

def addPopPayoutsIntoCoinbaseTx (coinbaseTx : CTransaction) (pindexPrev : CBlockIndex) :
    Run CTransaction := do
  let rewards ← E.getPopRewards pindexPrev
  require (coinbaseTx.vout.length == 1)
    (.assertion "at this place we should have only PoW payout here")
  pure { coinbaseTx with
    vout := coinbaseTx.vout ++ rewards.entries.map fun reward => ⟨reward.2, reward.1⟩ }

/-- `std::map<CScript, CAmount>` of what the outputs pay to each script. -/
abbrev Payouts := AList (fun _ : CScript => Int)

/-- `cbpayouts[out->scriptPubKey] += out->nValue`; null outputs are skipped. -/
def addPayout (cbpayouts : Payouts) (out : CTxOut) : Run Payouts :=
  if out.isNull then pure cbpayouts
  else do
    let total ← addAmount ((cbpayouts.lookup out.scriptPubKey).getD 0) out.nValue
    pure (cbpayouts.insert out.scriptPubKey total)

variable (tx : CTransaction)

/-- One expected reward must be paid exactly; `nTotalPopReward` adds up. -/
def checkReward (cbpayouts : Payouts) (nTotalPopReward : Int)
    (payout : CScript × Int) : Run Int := do
  match cbpayouts.lookup payout.1 with
  | none =>
    throw (.blockInvalid .BLOCK_CONSENSUS "bad-pop-missing-payout"
      ("[tx: " ++ (E.txid tx).toHex ++ "] missing payout for scriptPubKey: '" ++
        hexStr payout.1 ++ "' with amount: '" ++ toString payout.2 ++ "'"))
  | some actualAmount =>
    require (actualAmount == payout.2)
      (.blockInvalid .BLOCK_CONSENSUS "bad-pop-wrong-payout"
        ("[tx: " ++ (E.txid tx).toHex ++ "] wrong payout for scriptPubKey: '" ++
          hexStr payout.1 ++ "'. Expected " ++ toString payout.2 ++ ", got " ++
          toString actualAmount ++ "."))
    addAmount nTotalPopReward payout.2

/-- `checkCoinbaseTxWithPopRewards`, given the expected rewards. -/
def checkCoinbaseWithRewards (nFees : Int) (nHeight : Nat)
    (expectedRewards : PoPRewards) : Run Unit := do
  require (expectedRewards.entries.length ≤ tx.vout.length)
    (.blockInvalid .BLOCK_CONSENSUS "bad-pop-vouts-size"
      ("checkCoinbaseTxWithPopRewards(): coinbase has incorrect size of pop vouts " ++
        "(actual vouts size=" ++ toString tx.vout.length ++ " vs expected vouts=" ++
        toString expectedRewards.entries.length ++ ")"))
  -- the loop starts at `vout.begin() + 1`
  require (!tx.vout.isEmpty) (.undefined "tx.vout.begin() + 1")
  let cbpayouts ← tx.vout.tail.foldlM addPayout ∅
  let nTotalPopReward ← expectedRewards.entries.foldlM (E.checkReward tx cbpayouts) 0
  let powBlockReward := E.getBlockSubsidy nHeight
  let valueOut ← tx.getValueOut
  let allowed ← addAmount nTotalPopReward powBlockReward
  let allowed ← addAmount allowed nFees
  require (decide (valueOut ≤ allowed))
    (.blockInvalid .BLOCK_CONSENSUS "bad-cb-pop-amount"
      ("ConnectBlock(): coinbase pays too much (actual=" ++ toString valueOut ++ " vs POW=" ++
        toString powBlockReward ++ " + POP=" ++ toString nTotalPopReward ++ ")"))

/-- `checkCoinbaseTxWithPopRewards`: the rewards are those due after the parent. -/
def checkCoinbaseTxWithPopRewards (nFees : Int) (pindex : CBlockIndex) : Run Unit :=
  match pindex.pprev with
  | none => .error (.undefined "*pindex.pprev")
  | some pprev => do
    let expectedRewards ← E.getPopRewards pprev
    E.checkCoinbaseWithRewards tx nFees pindex.nHeight expectedRewards

end NodeEnv

end VBitcoin
