import VBitcoin.Serialize
import VBitcoin.Script

/-!
**What validation depends on besides its arguments** — the chain parameters, the PoP library
(a record of the functions the node calls), the double SHA-256 (`hash256`) and script
execution (`checkInputs`).  What the node relies on from them is a hypothesis where it is used.
-/

namespace VBitcoin

/-! ### Parameters -/

/-- `std::numeric_limits<int>::max()`: a `SegwitHeight` that never comes. -/
def INT_MAX : Nat := 2147483647

structure ConsensusParams where
  hashGenesisBlock : UInt256
  nSubsidyHalvingInterval : Nat
  BIP16Exception : UInt256 := 0
  BIP34Height : Nat
  BIP34Hash : UInt256 := 0
  BIP65Height : Nat
  BIP66Height : Nat
  CSVHeight : Nat
  SegwitHeight : Nat
  powLimit : Nat
  VeriBlockPopSecurityHeight : Nat
  deriving DecidableEq, Repr

/-- What the node asks of the PoP library. -/
structure PopContext where
  encode : PopData → Bytes
  /-- `PopContext::check`: `none` when the data is valid, else path and message. -/
  check : PopData → Option (String × String)
  bootstrapHeight : Nat
  setState : UInt256 → Bool
  /-- `CalculateTopLevelMerkleRoot`, from the transaction root, the PoP data and
      the previous block, which is `none` when the library does not know it. -/
  calculateTopLevelMerkleRoot : UInt256 → PopData → Option UInt256 → UInt256
  /-- Whether `AltBlockTree::getBlockIndex` knows a block hash. -/
  knowsBlock : UInt256 → Bool
  endorsementSettlementInterval : Nat
  popPayoutDelay : Nat
  /-- `getPopPayout`: scripts with their reward coefficients, in map order. -/
  getPopPayout : UInt256 → Option (List (Bytes × Nat))

/-- What the node asks of libsecp256k1 about public keys. -/
structure Secp256k1 where
  isFullyValid : Bytes → Bool
  /-- `CPubKey::Decompress`: the 65 bytes of a key given by 33. -/
  decompress : Bytes → Option Bytes

structure ScriptFlags where
  p2sh : Bool
  witness : Bool
  dersig : Bool
  checkLockTimeVerify : Bool
  checkSequenceVerify : Bool
  nullDummy : Bool
  deriving DecidableEq, Repr

/-! ### The block index -/

structure IndexEntry where
  hash : UInt256
  nTime : UInt32
  deriving DecidableEq, Repr

/-- With its ancestors, the parent first; their number is `nHeight`. -/
structure CBlockIndex where
  entry : IndexEntry
  ancestors : List IndexEntry
  deriving DecidableEq, Repr

namespace CBlockIndex

variable (pindex : CBlockIndex)

def nHeight : Nat := pindex.ancestors.length

def getBlockHash : UInt256 := pindex.entry.hash

def pprev : Option CBlockIndex :=
  match pindex.ancestors with
  | [] => none
  | parent :: rest => some ⟨parent, rest⟩

def getAncestor (height : Nat) : Option CBlockIndex :=
  if pindex.nHeight < height then none
  else
    match (pindex.entry :: pindex.ancestors).drop (pindex.nHeight - height) with
    | [] => none
    | entry :: ancestors => some ⟨entry, ancestors⟩

/-- `GetMedianTimePast`, over the block and its ten nearest ancestors. -/
def getMedianTimePast : Nat :=
  let times := ((pindex.entry :: pindex.ancestors).take 11).map fun e => e.nTime.toNat
  (times.insertionSort (· ≤ ·)).getD (times.length / 2) 0

end CBlockIndex

/-- The height of the block after `pindexPrev`; genesis has no predecessor. -/
def heightAfter : Option CBlockIndex → Nat
  | none => 0
  | some pindexPrev => pindexPrev.nHeight + 1

/-! ### The environment -/

structure NodeEnv where
  consensus : ConsensusParams
  pop : PopContext
  secp : Secp256k1
  hash256 : Bytes → UInt256
  /-- `CheckInputs`: the scripts of a transaction run on the coins it spends. -/
  checkInputs : CTransaction → List Coin → ScriptFlags → Bool
  /-- Whether scripts are run at all for a block (not below `-assumevalid`). -/
  fScriptChecks : CBlockIndex → Bool

namespace NodeEnv

variable (E : NodeEnv)

def txid (tx : CTransaction) : UInt256 := E.hash256 (tx.serialize false)

def wtxid (tx : CTransaction) : UInt256 :=
  if tx.hasWitness then E.hash256 (tx.serialize true) else E.txid tx

def blockHash (header : CBlockHeader) : UInt256 := E.hash256 header.serialize

def indexEntry (header : CBlockHeader) : IndexEntry := ⟨E.blockHash header, header.nTime⟩

variable (block : CBlock) (chain : List CBlock)

def blockIndex : CBlockIndex :=
  ⟨E.indexEntry block.header, chain.map fun b => E.indexEntry b.header⟩

def tipIndex : List CBlock → Option CBlockIndex
  | [] => none
  | tip :: chain => some (E.blockIndex tip chain)

@[simp] theorem blockIndex_nHeight :
    (E.blockIndex block chain).nHeight = chain.length := List.length_map _

@[simp] theorem blockIndex_getBlockHash :
    (E.blockIndex block chain).getBlockHash = E.blockHash block.header := rfl

@[simp] theorem blockIndex_pprev : (E.blockIndex block chain).pprev = E.tipIndex chain := by
  cases chain <;> rfl

def isCrossedBootstrapBlockAt (height : Nat) : Bool := E.pop.bootstrapHeight ≤ height

def isCrossedBootstrapBlock (tip : Option CBlockIndex) : Bool :=
  tip.any fun tip => E.isCrossedBootstrapBlockAt tip.nHeight

def paramsPopActive (height : Nat) : Bool := E.consensus.VeriBlockPopSecurityHeight ≤ height

def isPopActive (height : Nat) : Bool :=
  E.isCrossedBootstrapBlockAt height && E.paramsPopActive height

def isWitnessEnabled (pindexPrev : Option CBlockIndex) : Bool :=
  E.consensus.SegwitHeight ≤ heightAfter pindexPrev

def getBlockScriptFlags (pindex : CBlockIndex) : ScriptFlags :=
  let p2sh := E.consensus.BIP16Exception.isNull ||
    pindex.getBlockHash != E.consensus.BIP16Exception
  { p2sh
    witness := p2sh && E.consensus.SegwitHeight != INT_MAX
    dersig := E.consensus.BIP66Height ≤ pindex.nHeight
    checkLockTimeVerify := E.consensus.BIP65Height ≤ pindex.nHeight
    checkSequenceVerify := E.consensus.CSVHeight ≤ pindex.nHeight
    nullDummy := E.isWitnessEnabled pindex.pprev }

/-! ### Weights -/

def getPopDataWeight (popData : PopData) : Nat :=
  (serializeBytes (E.pop.encode popData)).length * (WITNESS_SCALE_FACTOR - 1) +
    (serializeBytes (E.pop.encode popData)).length

/-- PoP data is taken off, also from a block that does not serialize it. -/
def getBlockWeight : Int :=
  (block.serialize (E.pop.encode block.popData) false).length * (WITNESS_SCALE_FACTOR - 1 : Nat) +
    (block.serialize (E.pop.encode block.popData) true).length -
    E.getPopDataWeight block.popData

/-! ### Subsidy -/

/-- Before halvings: the end of each period, with its multiplier. -/
def subsidyPeriods : List (Nat × Int) :=
  [(64800, 7 * COIN), (136800, 65 * COIN / 10), (223200, 6 * COIN), (331200, 575 * COIN / 100),
    (468000, 55 * COIN / 10), (640800, 525 * COIN / 100), (856800, 5 * COIN),
    (1123200, 475 * COIN / 100), (1447200, 45 * COIN / 10), (1836000, 425 * COIN / 100),
    (2296800, 4 * COIN), (2836800, 375 * COIN / 100), (3463200, 35 * COIN / 10),
    (4183200, 3 * COIN)]

/-- Division truncates, so that nothing is halved below the offset. -/
def getSubsidyMultiplier (nHeight : Nat) : Int :=
  let halvings := (nHeight - 4183200) / E.consensus.nSubsidyHalvingInterval
  if 64 ≤ halvings then 0
  else
    let nSubsidy :=
      match subsidyPeriods.find? fun period => nHeight < period.1 with
      | some period => period.2
      | none => 1504471080 * COIN / 1000000000
    nSubsidy / 2 ^ halvings

def getBlockSubsidy (nHeight : Nat) : Int :=
  if E.isPopActive nHeight then E.getSubsidyMultiplier nHeight / 2
  else
    let halvings := nHeight / E.consensus.nSubsidyHalvingInterval
    if 64 ≤ halvings then 0 else 50 * COIN / 2 ^ halvings

end NodeEnv

end VBitcoin
