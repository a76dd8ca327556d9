import VBitcoin.Compressor
import VBitcoin.ConnectBlock

/-!
**Undo data on disk** (`undo.h`, `UndoWriteToDisk` and `UndoReadFromDisk` of
`validation.cpp`) — the coins that a block spent, written behind a checksum and
read back (`undoReadFromDisk_undoWriteToDisk`).
-/

namespace VBitcoin

open Codec

/-! ### Coins -/

variable (K : Secp256k1)

/-- `TxInUndoSerializer`; the code is an `unsigned int`. -/
def writeTxInUndo (txout : Coin) : Bytes :=
  writeVarInt 32 ((txout.nHeight * 2 + (if txout.fCoinBase then 1 else 0)) % 2 ^ 32) ++
    ((if 0 < txout.nHeight then [0] else []) ++ writeTxOut K txout.out)

/-- The version number that old undo records hold. -/
def readVersionDummy (nHeight : Nat) : ByteReader Nat :=
  if 0 < nHeight then readVarInt 32 else pure 0

def readTxInUndo : ByteReader Coin := do
  let nCode ← readVarInt 32
  let _ ← readVersionDummy (nCode / 2)
  let out ← readTxOut K
  pure ⟨out, nCode / 2, nCode % 2 == 1⟩

/-- Its height has 31 bits, its value and script are those of a spent coin. -/
structure Storable (coin : Coin) : Prop where
  height : coin.nHeight < 2 ^ 31
  value : moneyRange coin.out.nValue = true
  script : coin.out.scriptPubKey.length ≤ MAX_SCRIPT_SIZE

theorem code_lt {coin : Coin} (h : Storable coin) :
    coin.nHeight * 2 + (if coin.fCoinBase then 1 else 0) < 2 ^ 32 := by
  have hheight := h.height
  split <;> omega

theorem code_div_two (coin : Coin) :
    (coin.nHeight * 2 + (if coin.fCoinBase then 1 else 0)) / 2 = coin.nHeight := by
  split <;> omega

theorem code_mod_two (coin : Coin) :
    ((coin.nHeight * 2 + (if coin.fCoinBase then 1 else 0)) % 2 == 1) = coin.fCoinBase := by
  cases coin.fCoinBase <;> simp

theorem reads_txInUndo {K : Secp256k1} (hK : K.Inverts) {coin : Coin} (h : Storable coin) :
    Reads (readTxInUndo K) (writeTxInUndo K coin) coin := by
  have hdummy : Reads (readVersionDummy coin.nHeight) (if 0 < coin.nHeight then [0] else []) 0 := by
    unfold readVersionDummy
    split
    · exact reads_code (by decide : 0 < 6)
    · exact reads_pure 0
  rw [writeTxInUndo, Nat.mod_eq_of_lt (code_lt h)]
  refine reads_bind (reads_varInt (by decide) (code_lt h)) ?_
  rw [code_div_two, code_mod_two]
  exact reads_bind hdummy (reads_bind_pure (reads_txOut hK h.value h.script) (reads_pure coin))

/-! ### Transactions and blocks -/

def MIN_TRANSACTION_INPUT_WEIGHT : Nat := WITNESS_SCALE_FACTOR * 41
def MAX_INPUTS_PER_BLOCK : Nat := MAX_BLOCK_WEIGHT / MIN_TRANSACTION_INPUT_WEIGHT

def writeTxUndo (vprevout : CTxUndo) : Bytes :=
  writeCompactSize vprevout.length ++ (vprevout.map (writeTxInUndo K)).flatten

def readTxUndo : ByteReader CTxUndo := do
  let count ← readCompactSize
  if MAX_INPUTS_PER_BLOCK < count then throw "Too many input undo records"
  else readList (readTxInUndo K) count

theorem reads_txUndo {K : Secp256k1} (hK : K.Inverts) {vprevout : CTxUndo}
    (hcount : vprevout.length ≤ MAX_INPUTS_PER_BLOCK) (h : ∀ coin ∈ vprevout, Storable coin) :
    Reads (readTxUndo K) (writeTxUndo K vprevout) vprevout := by
  have hmax : MAX_INPUTS_PER_BLOCK ≤ MAX_SIZE := by decide
  refine reads_bind (reads_compactSize (by omega)) ?_
  rw [if_neg (by omega)]
  exact reads_list fun coin hcoin => reads_txInUndo hK (h coin hcoin)

def writeBlockUndo (vtxundo : CBlockUndo) : Bytes :=
  writeCompactSize vtxundo.length ++ (vtxundo.map (writeTxUndo K)).flatten

def readBlockUndo : ByteReader CBlockUndo := do
  let nSize ← readCompactSize
  readList (readTxUndo K) nSize

structure StorableUndo (vtxundo : CBlockUndo) : Prop where
  count : vtxundo.length ≤ MAX_SIZE
  inputs : ∀ vprevout ∈ vtxundo, vprevout.length ≤ MAX_INPUTS_PER_BLOCK
  coins : ∀ vprevout ∈ vtxundo, ∀ coin ∈ vprevout, Storable coin

theorem reads_blockUndo {K : Secp256k1} (hK : K.Inverts) {vtxundo : CBlockUndo}
    (h : StorableUndo vtxundo) : Reads (readBlockUndo K) (writeBlockUndo K vtxundo) vtxundo := by
  refine reads_bind (reads_compactSize h.count) ?_
  exact reads_list fun vprevout hmem =>
    reads_txUndo hK (h.inputs vprevout hmem) (h.coins vprevout hmem)

/-! ### The undo file -/

namespace NodeEnv

variable (E : NodeEnv)

/-- The checksum of the undo data of a block, whose parent is hashed with it. -/
def undoChecksum (hashBlock : UInt256) (undo : Bytes) : Bytes :=
  serializeUInt256 (E.hash256 (serializeUInt256 hashBlock ++ undo))

/-- From the position that the block index remembers. -/
def undoWriteToDisk (vtxundo : CBlockUndo) (hashBlock : UInt256) : Bytes :=
  writeBlockUndo E.secp vtxundo ++ E.undoChecksum hashBlock (writeBlockUndo E.secp vtxundo)

/-- Nothing if it cannot be read or the checksum is wrong. -/
def undoReadFromDisk (file : Bytes) (hashBlock : UInt256) : Option CBlockUndo :=
  match (readBlockUndo E.secp).run file with
  | .error _ => none
  | .ok (vtxundo, rest) =>
    if rest.take 32 = E.undoChecksum hashBlock (file.take (file.length - rest.length)) then
      some vtxundo
    else none

/-- **Undo data are read back as they were written.** -/
theorem undoReadFromDisk_undoWriteToDisk (hK : E.secp.Inverts) {vtxundo : CBlockUndo}
    (h : StorableUndo vtxundo) (hashBlock : UInt256) :
    E.undoReadFromDisk (E.undoWriteToDisk vtxundo hashBlock) hashBlock = some vtxundo := by
  have hlength : (E.undoChecksum hashBlock (writeBlockUndo E.secp vtxundo)).length = 32 := by
    simp [undoChecksum, serializeUInt256]
  unfold undoReadFromDisk undoWriteToDisk
  rw [reads_blockUndo hK h]
  simp only [List.length_append, Nat.add_sub_cancel, List.take_left]
  rw [List.take_of_length_le (by omega), if_pos rfl]

end NodeEnv

end VBitcoin
