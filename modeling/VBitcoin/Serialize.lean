import VBitcoin.Primitives

/-!
**Network serialization** (`serialize.h`, `primitives/*.h`) — the bytes that
are hashed, and whose number is what sizes and weights count.

`GetSerializeSize` of a value is the length of its serialization.  The size
lemmas at the end give the lengths that the limits of a block depend on.
-/

namespace VBitcoin

open List

/-! ### Integers and vectors -/

/-- The `width` low bytes of a number, low byte first (`ser_writedata16` …). -/
def leBytes : Nat → Nat → Bytes
  | 0, _ => []
  | width + 1, value => UInt8.ofNat (value % 256) :: leBytes width (value / 256)

@[simp] theorem leBytes_length : ∀ (width value : Nat), (leBytes width value).length = width
  | 0, _ => rfl
  | width + 1, value => by rw [leBytes, length_cons, leBytes_length width]

variable (nSize : Nat)

def writeCompactSize : Bytes :=
  if nSize < 253 then leBytes 1 nSize
  else if nSize ≤ 0xffff then 253 :: leBytes 2 nSize
  else if nSize ≤ 0xffffffff then 254 :: leBytes 4 nSize
  else 255 :: leBytes 8 nSize

def sizeOfCompactSize : Nat :=
  if nSize < 253 then 1 else if nSize ≤ 0xffff then 3 else if nSize ≤ 0xffffffff then 5 else 9

@[simp] theorem writeCompactSize_length :
    (writeCompactSize nSize).length = sizeOfCompactSize nSize := by
  unfold writeCompactSize sizeOfCompactSize
  split_ifs <;> simp

theorem one_le_sizeOfCompactSize : 1 ≤ sizeOfCompactSize nSize := by
  unfold sizeOfCompactSize
  split_ifs <;> omega

/-- A `std::vector` whose elements are already serialized. -/
def serializeVector (elements : List Bytes) : Bytes :=
  writeCompactSize elements.length ++ elements.flatten

def serializeBytes (bytes : Bytes) : Bytes := writeCompactSize bytes.length ++ bytes

def serializeUInt256 (h : UInt256) : Bytes := leBytes 32 h.toNat

def serializeInt64 (value : Int) : Bytes := leBytes 8 (value % 2 ^ 64).toNat

/-! ### Transactions -/

def COutPoint.serialize (outpoint : COutPoint) : Bytes :=
  serializeUInt256 outpoint.hash ++ leBytes 4 outpoint.n

def CTxIn.serialize (txin : CTxIn) : Bytes :=
  txin.prevout.serialize ++ serializeBytes txin.scriptSig ++ leBytes 4 txin.nSequence.toNat

def CTxOut.serialize (txout : CTxOut) : Bytes :=
  serializeInt64 txout.nValue ++ serializeBytes txout.scriptPubKey

variable (tx : CTransaction)

def CTransaction.serializeWitness : Bytes :=
  (tx.vin.map fun txin => serializeVector (txin.scriptWitness.map serializeBytes)).flatten

/-- Without `fAllowWitness` the flag `SERIALIZE_TRANSACTION_NO_WITNESS` is set. -/
def CTransaction.serialize (fAllowWitness : Bool) : Bytes :=
  let flags := fAllowWitness && tx.hasWitness
  leBytes 4 tx.nVersion.toUInt32.toNat ++
    -- the dummy input vector and the flag byte of the extended format
    (if flags then [0, 1] else []) ++
    serializeVector (tx.vin.map CTxIn.serialize) ++
    serializeVector (tx.vout.map CTxOut.serialize) ++
    (if flags then tx.serializeWitness else []) ++
    leBytes 4 tx.nLockTime.toNat

def CTransaction.strippedSize : Nat := (tx.serialize false).length

def CTransaction.totalSize : Nat := (tx.serialize true).length

def getTransactionWeight : Nat :=
  tx.strippedSize * (WITNESS_SCALE_FACTOR - 1) + tx.totalSize

/-! ### Blocks -/

def CBlockHeader.serialize (header : CBlockHeader) : Bytes :=
  leBytes 4 header.nVersion.toUInt32.toNat ++ serializeUInt256 header.hashPrevBlock ++
    serializeUInt256 header.hashMerkleRoot ++ leBytes 4 header.nTime.toNat ++
    leBytes 4 header.nBits.toNat ++ leBytes 4 header.nNonce.toNat

@[simp] theorem CBlockHeader.serialize_length (header : CBlockHeader) :
    header.serialize.length = 80 := by
  simp [CBlockHeader.serialize, serializeUInt256]

/-- A block, given the library's encoding of its PoP data. -/
def CBlock.serialize (block : CBlock) (popEncoding : Bytes) (fAllowWitness : Bool) : Bytes :=
  block.header.serialize ++
    serializeVector (block.vtx.map fun tx => tx.serialize fAllowWitness) ++
    (if block.header.hasPopBit then serializeBytes popEncoding else [])

/-! ### Sizes -/

theorem length_flatten_map_le {ι : Type} (f : ι → Bytes) (bound : Nat) :
    ∀ (l : List ι), (∀ x ∈ l, bound ≤ (f x).length) →
      bound * l.length ≤ (l.map f).flatten.length
  | [], _ => by simp
  | x :: rest, h => by
      have hhead := h x (mem_cons_self)
      have hrest := length_flatten_map_le f bound rest (forall_mem_cons.mp h).2
      rw [map_cons, flatten_cons, length_append, length_cons, Nat.mul_succ]
      omega

theorem CTxIn.length_serialize_ge (txin : CTxIn) : 41 ≤ txin.serialize.length := by
  have h := one_le_sizeOfCompactSize txin.scriptSig.length
  simp only [CTxIn.serialize, COutPoint.serialize, serializeUInt256, serializeBytes,
    length_append, leBytes_length, writeCompactSize_length]
  omega

theorem CTxOut.length_serialize_ge (txout : CTxOut) : 9 ≤ txout.serialize.length := by
  have h := one_le_sizeOfCompactSize txout.scriptPubKey.length
  simp only [CTxOut.serialize, serializeInt64, serializeBytes, length_append,
    leBytes_length, writeCompactSize_length]
  omega

theorem CTransaction.strippedSize_ge :
    10 + 41 * tx.vin.length + 9 * tx.vout.length ≤ tx.strippedSize := by
  have hin := length_flatten_map_le CTxIn.serialize 41 tx.vin fun x _ => x.length_serialize_ge
  have hout := length_flatten_map_le CTxOut.serialize 9 tx.vout fun x _ => x.length_serialize_ge
  have hnin := one_le_sizeOfCompactSize tx.vin.length
  have hnout := one_le_sizeOfCompactSize tx.vout.length
  simp only [CTransaction.strippedSize, CTransaction.serialize, Bool.false_and,
    Bool.false_eq_true, if_false, length_append, leBytes_length, serializeVector,
    length_map, writeCompactSize_length, length_nil]
  omega

theorem CTransaction.strippedSize_le_totalSize : tx.strippedSize ≤ tx.totalSize := by
  simp only [CTransaction.strippedSize, CTransaction.totalSize, CTransaction.serialize,
    Bool.false_and, Bool.true_and, Bool.false_eq_true, if_false, length_append,
    length_nil]
  omega

end VBitcoin
