import VBitcoin.Codec
import VBitcoin.Script
import VBitcoin.Serialize

/-!
**Reading the network format** (`serialize.h`) — the readers of numbers, compact
sizes, hashes and headers, beside the writers of `Serialize.lean`.

For each of them there is a round trip (`reads_…`: what was written is read back)
and its converse (`yields_…`: what was read is what would be written, so that no
value has two encodings).
-/

namespace VBitcoin

open Codec List

/-- A reader of bytes; it stops with the text of a `std::ios_base::failure`. -/
abbrev ByteReader := Reader UInt8 String

def endOfFile : String := "CAutoFile::read: end of file"

theorem toNat_ofNat_of_lt {n : Nat} (h : n < 256) : (UInt8.ofNat n).toNat = n := by
  rw [UInt8.toNat_ofNat']
  exact Nat.mod_eq_of_lt h

/-! ### Sizes -/

def MAX_SIZE : Nat := 0x02000000

/-- A little-endian number of some bytes (`ser_readdata16` …). -/
def readNumber (width : Nat) : ByteReader Nat := do
  let bytes ← readBlock endOfFile width
  pure (readLE bytes)

/-- After the first byte, if it needs that many bytes. -/
def readLongSize (width least : Nat) : ByteReader Nat := do
  let nSizeRet ← readNumber width
  if nSizeRet < least then throw "non-canonical ReadCompactSize()" else pure nSizeRet

/-- The number of a compact size that starts with a byte. -/
def readSizeAfter (chSize : Nat) : ByteReader Nat :=
  if chSize < 253 then pure chSize
  else if chSize = 253 then readLongSize 2 253
  else if chSize = 254 then readLongSize 4 0x10000
  else readLongSize 8 0x100000000

def readCompactSize : ByteReader Nat := do
  let chSize ← readOne endOfFile
  let nSizeRet ← readSizeAfter chSize.toNat
  if MAX_SIZE < nSizeRet then throw "ReadCompactSize(): size too large" else pure nSizeRet

theorem readLE_leBytes : ∀ {width value : Nat}, value < 256 ^ width →
    readLE (leBytes width value) = value
  | 0, value, h => by
      rw [Nat.pow_zero] at h
      rw [leBytes, readLE]
      omega
  | width + 1, value, h => by
      rw [Nat.pow_succ] at h
      rw [leBytes, readLE, readLE_leBytes (by omega), toNat_ofNat_of_lt (by omega)]
      omega

variable {width value nSize : Nat}

theorem reads_number (h : value < 256 ^ width) :
    Reads (readNumber width) (leBytes width value) value := by
  have hblock := reads_block endOfFile (leBytes width value)
  rw [leBytes_length] at hblock
  refine reads_bind_pure hblock ?_
  rw [readLE_leBytes h]
  exact reads_pure value

theorem reads_longSize {least : Nat} (h : value < 256 ^ width) (hleast : least ≤ value) :
    Reads (readLongSize width least) (leBytes width value) value := by
  refine reads_bind_pure (reads_number h) ?_
  rw [if_neg (by omega)]
  exact reads_pure value

theorem exists_sizeAfter (h : nSize < 2 ^ 64) : ∃ chSize written,
    writeCompactSize nSize = chSize :: written ∧
      Reads (readSizeAfter chSize.toNat) written nSize := by
  unfold writeCompactSize
  by_cases hone : nSize < 253
  · rw [if_pos hone, leBytes, leBytes, Nat.mod_eq_of_lt (by omega)]
    refine ⟨_, _, rfl, ?_⟩
    rw [toNat_ofNat_of_lt (by omega), readSizeAfter, if_pos hone]
    exact reads_pure nSize
  · rw [if_neg hone]
    by_cases htwo : nSize ≤ 0xffff
    · rw [if_pos htwo]
      exact ⟨253, _, rfl, reads_longSize (by omega) (by omega)⟩
    · rw [if_neg htwo]
      by_cases hfour : nSize ≤ 0xffffffff
      · rw [if_pos hfour]
        exact ⟨254, _, rfl, reads_longSize (by omega) (by omega)⟩
      · rw [if_neg hfour]
        exact ⟨255, _, rfl, reads_longSize (by omega) (by omega)⟩

/-- **A size that is allowed is read back.** -/
theorem reads_compactSize (h : nSize ≤ MAX_SIZE) :
    Reads readCompactSize (writeCompactSize nSize) nSize := by
  have hmax : MAX_SIZE = 33554432 := rfl
  obtain ⟨chSize, written, hwritten, hafter⟩ := exists_sizeAfter (by omega : nSize < 2 ^ 64)
  rw [hwritten, ← singleton_append]
  refine reads_bind (reads_one endOfFile chSize) (reads_bind_pure hafter ?_)
  rw [if_neg (by omega)]
  exact reads_pure nSize

theorem refuses_compactSize (hmax : MAX_SIZE < nSize) (hfits : nSize < 2 ^ 64) :
    Refuses readCompactSize (writeCompactSize nSize) "ReadCompactSize(): size too large" := by
  obtain ⟨chSize, written, hwritten, hafter⟩ := exists_sizeAfter hfits
  rw [hwritten, ← singleton_append, ← append_nil written]
  refine refuses_bind (reads_one endOfFile chSize) (refuses_bind hafter ?_)
  rw [if_pos hmax]
  exact refuses_throw _

theorem leBytes_readLE : ∀ bytes : Bytes, leBytes bytes.length (readLE bytes) = bytes
  | [] => rfl
  | byte :: rest => by
    have hlow : (byte.toNat + 256 * readLE rest) % 256 = byte.toNat := by
      have := byte.toNat_lt
      omega
    have hhigh : (byte.toNat + 256 * readLE rest) / 256 = readLE rest := by
      have := byte.toNat_lt
      omega
    rw [length_cons, readLE, leBytes, hlow, hhigh, leBytes_readLE rest, UInt8.ofNat_toNat]

theorem readLE_lt : ∀ bytes : Bytes, readLE bytes < 256 ^ bytes.length
  | [] => by simp [readLE]
  | byte :: rest => by
    have hbyte := byte.toNat_lt
    have hrest := readLE_lt rest
    rw [length_cons, Nat.pow_succ, readLE]
    omega

theorem yields_number (width : Nat) :
    Yields (readNumber width) fun value used => used = leBytes width value ∧ value < 256 ^ width := by
  refine yields_bind (yields_block endOfFile width) fun bytes used hbytes => yields_pure ?_
  obtain ⟨rfl, rfl⟩ := hbytes
  rw [append_nil, leBytes_readLE]
  exact ⟨rfl, readLE_lt used⟩

theorem yields_longSize (width least : Nat) :
    Yields (readLongSize width least) fun value used =>
      used = leBytes width value ∧ value < 256 ^ width ∧ least ≤ value := by
  refine yields_bind (yields_number width) fun value used hvalue => ?_
  split
  · exact yields_throw _ _
  · rename_i hleast
    apply yields_pure
    rw [append_nil]
    exact ⟨hvalue.1, hvalue.2, Nat.not_lt.mp hleast⟩

theorem yields_sizeAfter (chSize : UInt8) :
    Yields (readSizeAfter chSize.toNat) fun nSize used =>
      chSize :: used = writeCompactSize nSize := by
  have hbyte := chSize.toNat_lt
  have hof : ∀ n : Nat, chSize.toNat = n → chSize = UInt8.ofNat n := by
    rintro n rfl
    exact (UInt8.ofNat_toNat).symm
  unfold readSizeAfter writeCompactSize
  split
  · rename_i hone
    apply yields_pure
    rw [if_pos hone, leBytes, leBytes, Nat.mod_eq_of_lt hbyte, UInt8.ofNat_toNat]
  · split
    · rename_i htwo
      apply (yields_longSize 2 253).mono
      rintro nSize used ⟨rfl, hlt, hle⟩
      rw [if_neg (by omega), if_pos (by omega), hof 253 htwo]
      rfl
    · split
      · rename_i hfour
        apply (yields_longSize 4 0x10000).mono
        rintro nSize used ⟨rfl, hlt, hle⟩
        rw [if_neg (by omega), if_neg (by omega), if_pos (by omega), hof 254 hfour]
        rfl
      · apply (yields_longSize 8 0x100000000).mono
        rintro nSize used ⟨rfl, hlt, hle⟩
        rw [if_neg (by omega), if_neg (by omega), if_neg (by omega), hof 255 (by omega)]
        rfl

/-- **No size has two encodings.** -/
theorem yields_compactSize :
    Yields readCompactSize fun nSize used => used = writeCompactSize nSize ∧ nSize ≤ MAX_SIZE := by
  refine yields_bind (yields_one endOfFile) fun chSize used hone => ?_
  refine yields_bind (yields_sizeAfter chSize) fun nSize used' hsize => ?_
  split
  · exact yields_throw _ _
  · rename_i hmax
    apply yields_pure
    rw [hone, append_nil, singleton_append]
    exact ⟨hsize, Nat.not_lt.mp hmax⟩

/-! ### Fields -/

def readUInt256 : ByteReader UInt256 := do
  let value ← readNumber 32
  pure (BitVec.ofNat 256 value)

def readUInt32 : ByteReader UInt32 := do
  let value ← readNumber 4
  pure (UInt32.ofNat value)

theorem yields_uint256 : Yields readUInt256 fun h used => used = serializeUInt256 h := by
  refine yields_bind (yields_number 32) fun value used hvalue => yields_pure ?_
  obtain ⟨rfl, hlt⟩ := hvalue
  have hfits : value < 2 ^ 256 := Nat.lt_of_lt_of_le hlt (by decide)
  rw [append_nil, serializeUInt256, BitVec.toNat_ofNat, Nat.mod_eq_of_lt hfits]

theorem yields_uint32 : Yields readUInt32 fun n used => used = leBytes 4 n.toNat := by
  refine yields_bind (yields_number 4) fun value used hvalue => yields_pure ?_
  obtain ⟨rfl, hlt⟩ := hvalue
  have hfits : value < 2 ^ 32 := Nat.lt_of_lt_of_le hlt (by decide)
  rw [append_nil, UInt32.toNat_ofNat', Nat.mod_eq_of_lt hfits]

def readBlockHeader : ByteReader CBlockHeader := do
  let nVersion ← readUInt32
  let hashPrevBlock ← readUInt256
  let hashMerkleRoot ← readUInt256
  let nTime ← readUInt32
  let nBits ← readUInt32
  let nNonce ← readUInt32
  pure { nVersion := nVersion.toInt32, hashPrevBlock, hashMerkleRoot, nTime, nBits, nNonce }

theorem reads_uint256 (h : UInt256) : Reads readUInt256 (serializeUInt256 h) h := by
  refine reads_bind_pure (reads_number (by simpa using h.isLt)) ?_
  rw [BitVec.ofNat_toNat, BitVec.setWidth_eq]
  exact reads_pure h

theorem reads_uint32 (n : UInt32) : Reads readUInt32 (leBytes 4 n.toNat) n := by
  refine reads_bind_pure (reads_number (by simpa using n.toNat_lt)) ?_
  rw [UInt32.ofNat_toNat]
  exact reads_pure n

theorem reads_blockHeader (header : CBlockHeader) :
    Reads readBlockHeader header.serialize header := by
  unfold CBlockHeader.serialize
  rw [append_assoc, append_assoc, append_assoc, append_assoc]
  refine reads_bind (reads_uint32 _) (reads_bind (reads_uint256 _) (reads_bind (reads_uint256 _)
    (reads_bind (reads_uint32 _) (reads_bind (reads_uint32 _) (reads_bind_pure (reads_uint32 _) ?_)))))
  rw [Int32.toInt32_toUInt32]
  exact reads_pure header

end VBitcoin
