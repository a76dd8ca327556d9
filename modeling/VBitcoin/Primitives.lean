import VBitcoin.ExceptRules

/-!
**The data the node validates** (`amount.h`, `primitives/`, `coins.h`), the consensus
constants, and the ways a validation function can end without a result
(`consensus/validation.h`).  An amount is an `Int` whose 64-bit additions are checked
(`addAmount`): signed overflow is undefined in the source.
-/

namespace VBitcoin

/-! ### Bytes, hashes and scripts -/

abbrev Bytes := List UInt8

/-- `uint256`; the null hash is `0`. -/
abbrev UInt256 := BitVec 256

def UInt256.isNull (h : UInt256) : Bool := h == 0

abbrev CScript := Bytes

/-! ### Consensus constants -/

def MAX_BLOCK_WEIGHT : Nat := 4000000
def MAX_BLOCK_SIGOPS_COST : Nat := 80000
def COINBASE_MATURITY : Nat := 100
def WITNESS_SCALE_FACTOR : Nat := 4
def MIN_SERIALIZABLE_TRANSACTION_WEIGHT : Nat := WITNESS_SCALE_FACTOR * 10
def MIN_BLOCKS_TO_KEEP : Nat := 288

/-! ### How a run can stop -/

inductive TxValidationResult where
  | TX_CONSENSUS
  | TX_MISSING_INPUTS
  | TX_PREMATURE_SPEND
  deriving DecidableEq, Repr

inductive BlockValidationResult where
  | BLOCK_RESULT_UNSET
  | BLOCK_CONSENSUS
  | BLOCK_CACHED_INVALID
  | BLOCK_INVALID_HEADER
  | BLOCK_MUTATED
  | BLOCK_MISSING_PREV
  | BLOCK_INVALID_PREV
  | BLOCK_TIME_FUTURE
  | BLOCK_CHECKPOINT
  deriving DecidableEq, Repr

/-- Every way a modelled function ends without returning its result. -/
inductive Stop where
  /-- `BlockValidationState::Invalid` and `return false`. -/
  | blockInvalid (result : BlockValidationResult) (reason debug : String)
  /-- `TxValidationState::Invalid` and `return false`. -/
  | txInvalid (result : TxValidationResult) (reason debug : String)
  /-- `state.Error` or `AbortNode`: a run-time error, no verdict on the block. -/
  | error (reason : String)
  /-- A failed `assert`: the node aborts. -/
  | assertion (condition : String)
  /-- A C++ exception that the function does not catch. -/
  | exception (what : String)
  /-- A signed 64-bit addition whose result is not representable. -/
  | overflow
  /-- Any other undefined behaviour: an access out of range. -/
  | undefined (access : String)
  deriving DecidableEq, Repr

abbrev Run := Except Stop

def accepted {α : Type} (x : Run α) : Bool := x.isOk

@[simp] theorem accepted_iff {α : Type} {x : Run α} : accepted x = true ↔ ∃ a, x = .ok a := by
  cases x <;> simp [accepted, Except.isOk, Except.toBool]

@[simp] theorem accepted_ok {α : Type} (a : α) : accepted (.ok a : Run α) = true := rfl

@[simp] theorem accepted_error {α : Type} (stop : Stop) :
    accepted (.error stop : Run α) = false := rfl

/-! ### Amounts

A `CAmount` is an `int64_t`, in satoshis. -/

def COIN : Int := 100000000
def MAX_MONEY : Int := 21000000 * COIN

def moneyRange (nValue : Int) : Bool := 0 ≤ nValue && nValue ≤ MAX_MONEY

theorem moneyRange_iff {nValue : Int} :
    moneyRange nValue = true ↔ 0 ≤ nValue ∧ nValue ≤ MAX_MONEY := by
  simp [moneyRange]

def addAmount (a b : Int) : Run Int :=
  if -(2 ^ 63) ≤ a + b ∧ a + b < 2 ^ 63 then .ok (a + b) else .error .overflow

theorem addAmount_eq_ok {a b c : Int} :
    addAmount a b = .ok c ↔ c = a + b ∧ -(2 ^ 63) ≤ a + b ∧ a + b < 2 ^ 63 := by
  unfold addAmount
  split
  · rename_i hrange
    simp only [Except.ok.injEq, hrange, and_true]
    exact eq_comm
  · rename_i hrange
    simp only [reduceCtorEq, false_iff]
    exact fun h => hrange h.2

theorem addAmount_of_moneyRange {a b : Int} (ha : moneyRange a = true)
    (hb : moneyRange b = true) : addAmount a b = .ok (a + b) := by
  rw [moneyRange_iff] at ha hb
  rw [addAmount_eq_ok]
  refine ⟨rfl, ?_, ?_⟩ <;> simp only [MAX_MONEY, COIN] at ha hb <;> omega

/-! ### Transactions -/

/-- `COutPoint`; the output index is a natural number, below `2^32` in the source. -/
structure COutPoint where
  hash : UInt256
  n : Nat
  deriving DecidableEq, Repr

def COutPoint.null : COutPoint := ⟨0, 4294967295⟩

def COutPoint.isNull (outpoint : COutPoint) : Bool := outpoint == COutPoint.null

structure CTxIn where
  prevout : COutPoint
  scriptSig : CScript
  nSequence : UInt32
  scriptWitness : List Bytes := []
  deriving DecidableEq, Repr

structure CTxOut where
  nValue : Int
  scriptPubKey : CScript
  deriving DecidableEq, Repr

def CTxOut.null : CTxOut := ⟨-1, []⟩

def CTxOut.isNull (out : CTxOut) : Bool := out.nValue == -1

structure CTransaction where
  vin : List CTxIn
  vout : List CTxOut
  nVersion : Int32 := 2
  nLockTime : UInt32 := 0
  deriving DecidableEq, Repr

namespace CTransaction

variable (tx : CTransaction)

def isCoinBase : Bool :=
  match tx.vin with
  | [txin] => txin.prevout.isNull
  | _ => false

def hasWitness : Bool := tx.vin.any fun txin => !txin.scriptWitness.isEmpty

/-- One turn of the loop of `GetValueOut`: it adds first and checks afterwards. -/
def addValueOut (nValueOut : Int) (txout : CTxOut) : Run Int := do
  let nValueOut ← addAmount nValueOut txout.nValue
  require (moneyRange txout.nValue && moneyRange nValueOut)
    (.exception "GetValueOut: value out of range")
  pure nValueOut

def getValueOut : Run Int := tx.vout.foldlM addValueOut 0

end CTransaction

/-! ### Blocks -/

/-- `altintegration::PopData`: the payloads are blobs of the PoP library. -/
structure PopData where
  context : List Bytes := []
  vtbs : List Bytes := []
  atvs : List Bytes := []
  deriving DecidableEq, Repr

def PopData.isEmpty (popData : PopData) : Bool :=
  popData.context.isEmpty && popData.vtbs.isEmpty && popData.atvs.isEmpty

theorem PopData.isEmpty_iff {popData : PopData} : popData.isEmpty = true ↔ popData = {} := by
  rcases popData with ⟨context, vtbs, atvs⟩
  simp [PopData.isEmpty, and_assoc]

structure CBlockHeader where
  nVersion : Int32
  hashPrevBlock : UInt256
  hashMerkleRoot : UInt256
  nTime : UInt32
  nBits : UInt32
  nNonce : UInt32
  deriving DecidableEq, Repr

def CBlockHeader.hasPopBit (header : CBlockHeader) : Bool :=
  header.nVersion.toBitVec.getLsbD 19

structure CBlock where
  header : CBlockHeader
  vtx : List CTransaction
  popData : PopData := {}
  /-- Memory only: an earlier `CheckBlock` accepted this object. -/
  fChecked : Bool := false
  deriving DecidableEq, Repr

/-! ### Coins -/

structure Coin where
  out : CTxOut
  nHeight : Nat
  fCoinBase : Bool
  deriving DecidableEq, Repr

/-- The default-constructed coin, also what `Clear` leaves behind. -/
def Coin.empty : Coin := ⟨CTxOut.null, 0, false⟩

def Coin.isSpent (coin : Coin) : Bool := coin.out.isNull

@[simp] theorem Coin.isSpent_empty : Coin.empty.isSpent = true := rfl

/-- The answer of `GetCoin`: the coin, if it is unspent. -/
def Coin.unspent (coin : Coin) : Option Coin := if coin.isSpent then none else some coin

@[simp] theorem Coin.unspent_empty : Coin.empty.unspent = none := rfl

theorem Coin.unspent_of_not_isSpent {coin : Coin} (h : coin.isSpent = false) :
    coin.unspent = some coin := by simp [Coin.unspent, h]

theorem Coin.unspent_eq_none {coin : Coin} : coin.unspent = none ↔ coin.isSpent = true := by
  cases h : coin.isSpent <;> simp [Coin.unspent, h]

theorem Coin.unspent_eq_some {coin c : Coin} :
    coin.unspent = some c ↔ coin.isSpent = false ∧ c = coin := by
  cases h : coin.isSpent <;> simp [Coin.unspent, h, eq_comm]

end VBitcoin
