import VBitcoin.ActiveChain
import VBitcoin.CompactBlock
import VBitcoin.TxEncoding

/-!
**Blocks and headers on the wire** (`primitives/block.h`, `blockencodings.h`, and the HEADERS
message of `net_processing.cpp`) — blocks and compact blocks write PoP data only when the
version has the POP bit, a `BlockTransactions` always, HEADERS once for each header with the
bit.  A transaction without inputs and a list longer than `MAX_SIZE` are not read back.
-/

namespace VBitcoin

open Codec List

/-! ### Lists that are read in chunks -/

/-- A list whose buffer grows by at most 1000 elements at a time. -/
def readChunked {α : Type} (r : ByteReader α) (todo : Nat) : ByteReader (List α) :=
  if todo = 0 then pure []
  else do
    let chunk ← readList r (min 1000 todo)
    let rest ← readChunked r (todo - min 1000 todo)
    pure (chunk ++ rest)
termination_by todo
decreasing_by omega

theorem reads_chunked {α : Type} {r : ByteReader α} {write : α → Bytes} (todo : Nat) :
    ∀ as : List α, as.length = todo → (∀ a ∈ as, Reads r (write a) a) →
      Reads (readChunked r todo) (as.map write).flatten as := by
  induction todo using Nat.strong_induction_on with
  | h todo ih =>
    intro as hlength h
    rw [readChunked]
    split
    · rename_i hzero
      rw [eq_nil_of_length_eq_zero (hlength.trans hzero)]
      exact reads_pure []
    · have hchunk : (as.take 1000).length = min 1000 todo := by rw [length_take, hlength]
      have hrest : (as.drop 1000).length = todo - min 1000 todo := by
        rw [length_drop, hlength]
        omega
      have hsplit : (as.map write).flatten =
          ((as.take 1000).map write).flatten ++ ((as.drop 1000).map write).flatten := by
        rw [← flatten_append, ← map_append, take_append_drop]
      rw [hsplit, ← hchunk]
      refine reads_bind (reads_list fun a ha => h a (mem_of_mem_take ha)) ?_
      rw [hchunk]
      refine reads_bind_pure (ih _ (by omega) _ hrest fun a ha => h a (mem_of_mem_drop ha)) ?_
      rw [take_append_drop]
      exact reads_pure as

theorem yields_chunked {α : Type} {r : ByteReader α} {write : α → Bytes} {Good : α → Prop}
    (hr : Yields r fun a used => used = write a ∧ Good a) (todo : Nat) :
    Yields (readChunked r todo) fun as used =>
      used = (as.map write).flatten ∧ as.length = todo ∧ ∀ a ∈ as, Good a := by
  induction todo using Nat.strong_induction_on with
  | h todo ih =>
    rw [readChunked]
    split
    · rename_i hzero
      exact yields_pure ⟨rfl, hzero.symm, by simp⟩
    · refine yields_bind (yields_list hr (min 1000 todo)) ?_
      rintro chunk used ⟨rfl, hchunk, hgood⟩
      refine yields_bind (ih (todo - min 1000 todo) (by omega)) ?_
      rintro rest used' ⟨rfl, hrest, hgood'⟩
      refine yields_pure ⟨?_, ?_, ?_⟩
      · rw [append_nil, map_append, flatten_append]
      · rw [length_append, hchunk, hrest]
        omega
      · intro a ha
        rcases mem_append.mp ha with h | h
        · exact hgood a h
        · exact hgood' a h

/-! ### Numbers of other widths -/

def readUInt64 : ByteReader UInt64 := do
  let value ← readNumber 8
  pure (UInt64.ofNat value)

theorem reads_uint64 (n : UInt64) : Reads readUInt64 (leBytes 8 n.toNat) n := by
  refine reads_bind_pure (reads_number (by simpa using n.toNat_lt)) ?_
  rw [UInt64.ofNat_toNat]
  exact reads_pure n

def serializeShortID (shortid : UInt64) : Bytes :=
  leBytes 4 (shortid &&& 0xffffffff).toNat ++ leBytes 2 (shortid >>> 32 &&& 0xffff).toNat

def readShortID : ByteReader UInt64 := do
  let lsb ← readNumber 4
  let msb ← readNumber 2
  pure (UInt64.ofNat msb <<< 32 ||| UInt64.ofNat lsb)

variable {shortid : UInt64}

theorem shortID_join (h : shortid.toNat < 2 ^ 48) :
    UInt64.ofNat (shortid >>> 32 &&& 0xffff).toNat <<< 32 |||
      UInt64.ofNat (shortid &&& 0xffffffff).toNat = shortid := by
  have hhigh : (shortid >>> 32) &&& (0xffff : UInt64) = shortid >>> 32 := by
    apply UInt64.toNat_inj.mp
    rw [UInt64.toNat_and, UInt64.toNat_shiftRight]
    change shortid.toNat >>> 32 &&& (2 ^ 16 - 1) = _
    rw [Nat.and_two_pow_sub_one_eq_mod, Nat.shiftRight_eq_div_pow]
    change shortid.toNat / 2 ^ 32 % 2 ^ 16 = shortid.toNat >>> 32
    rw [Nat.shiftRight_eq_div_pow, Nat.mod_eq_of_lt (by omega)]
  rw [UInt64.ofNat_toNat, UInt64.ofNat_toNat, hhigh]
  apply UInt64.toNat_inj.mp
  rw [UInt64.toNat_or, UInt64.toNat_shiftLeft, UInt64.toNat_shiftRight, UInt64.toNat_and]
  change (shortid.toNat >>> 32) <<< 32 % 2 ^ 64 ||| (shortid.toNat &&& (2 ^ 32 - 1)) = _
  rw [Nat.and_two_pow_sub_one_eq_mod, Nat.shiftRight_eq_div_pow, Nat.shiftLeft_eq,
    Nat.mod_eq_of_lt (by omega), ← Nat.shiftLeft_eq,
    ← Nat.shiftLeft_add_eq_or_of_lt (Nat.mod_lt _ (by decide)), Nat.shiftLeft_eq]
  omega

theorem reads_shortID (h : shortid.toNat < 2 ^ 48) :
    Reads readShortID (serializeShortID shortid) shortid := by
  have hlsb : (shortid &&& 0xffffffff).toNat < 256 ^ 4 := by
    rw [UInt64.toNat_and]
    exact Nat.lt_of_le_of_lt Nat.and_le_right (by decide)
  have hmsb : (shortid >>> 32 &&& 0xffff).toNat < 256 ^ 2 := by
    rw [UInt64.toNat_and]
    exact Nat.lt_of_le_of_lt Nat.and_le_right (by decide)
  refine reads_bind (reads_number hlsb) (reads_bind_pure (reads_number hmsb) ?_)
  rw [shortID_join h]
  exact reads_pure shortid

theorem getShortID_lt (lib : ShortIdLib) (header : CBlockHeader) (nonce : UInt64)
    (txhash : UInt256) :
    (CBlockHeaderAndShortTxIDs.getShortID lib header nonce txhash).toNat < 2 ^ 48 := by
  rw [CBlockHeaderAndShortTxIDs.getShortID, UInt64.toNat_and]
  exact Nat.lt_of_le_of_lt Nat.and_le_right (by decide)


/-! ### Transactions -/

/-- With inputs, and without a vector above `MAX_SIZE`. -/
structure CTransaction.Readable (tx : CTransaction) (fAllowWitness : Bool) : Prop where
  hasInput : tx.vin ≠ []
  fields : tx.FieldsOk
  sizes : tx.SizesOk fAllowWitness
  kept : fAllowWitness = true ∨ tx.hasWitness = false

theorem CTransaction.Readable.reads {tx : CTransaction} {fAllowWitness : Bool}
    (h : tx.Readable fAllowWitness) :
    Reads (unserializeTransaction fAllowWitness) (tx.serialize fAllowWitness) tx := by
  have hreads := reads_transaction h.hasInput h.fields h.sizes
  have hsame : (if fAllowWitness then tx else tx.stripped) = tx := by
    rcases h.kept with rfl | hnone
    · exact if_pos rfl
    · rw [stripped_of_hasWitness hnone, ite_self]
  rwa [hsame] at hreads

/-! ### PoP data -/

/-- `DeserializeFromVbkEncoding`: the PoP data, or the state's message. -/
abbrev PopDecoder := Bytes → Except String PopData

def unserializePopData (deserialize : PopDecoder) : ByteReader PopData := do
  let bytes_data ← readVarBytes
  match deserialize bytes_data with
  | .ok popData => pure popData
  | .error state => throw state

section Formats

variable (E : NodeEnv) (deserialize : PopDecoder) (fAllowWitness : Bool)

/-- The library reads its own encoding of some PoP data, which is not too long. -/
structure PopReadable (popData : PopData) : Prop where
  size : (E.pop.encode popData).length ≤ MAX_SIZE
  back : deserialize (E.pop.encode popData) = .ok popData

theorem PopReadable.reads {E : NodeEnv} {deserialize : PopDecoder} {popData : PopData}
    (h : PopReadable E deserialize popData) :
    Reads (unserializePopData deserialize) (serializeBytes (E.pop.encode popData)) popData := by
  refine reads_bind_pure (reads_varBytes h.size) ?_
  rw [h.back]
  exact reads_pure popData

/-- A field that is there when the version has the POP bit. -/
def readPopField (header : CBlockHeader) : ByteReader PopData :=
  if header.hasPopBit then unserializePopData deserialize else pure {}

def serializePopField (header : CBlockHeader) (popData : PopData) : Bytes :=
  if header.hasPopBit then serializeBytes (E.pop.encode popData) else []

def unserializeBlock : ByteReader CBlock := do
  let header ← readBlockHeader
  let vtx ← readVector (unserializeTransaction fAllowWitness)
  let popData ← readPopField deserialize header
  pure { header, vtx, popData }

/-! ### Answers with transactions -/

structure BlockTransactions where
  blockhash : UInt256
  txn : List CTransaction
  popData : PopData := {}
  deriving DecidableEq, Repr

def BlockTransactions.serialize (resp : BlockTransactions) : Bytes :=
  serializeUInt256 resp.blockhash ++
    (serializeVector (resp.txn.map fun tx => tx.serialize fAllowWitness) ++
      serializeBytes (E.pop.encode resp.popData))

def unserializeBlockTransactions : ByteReader BlockTransactions := do
  let blockhash ← readUInt256
  let txn_size ← readCompactSize
  let txn ← readChunked (unserializeTransaction fAllowWitness) txn_size
  let popData ← unserializePopData deserialize
  pure { blockhash, txn, popData }

/-! ### Compact blocks -/

def PrefilledTransaction.serialize (prefilled : PrefilledTransaction) : Bytes :=
  writeCompactSize prefilled.index.toNat ++ prefilled.tx.serialize fAllowWitness

def readPrefilled : ByteReader PrefilledTransaction := do
  let idx ← readCompactSize
  if 65535 < idx then throw "index overflowed 16-bits"
  else do
    let tx ← unserializeTransaction fAllowWitness
    pure ⟨UInt16.ofNat idx, tx⟩

def CBlockHeaderAndShortTxIDs.serialize (cmpctblock : CBlockHeaderAndShortTxIDs) :
    Except String Bytes :=
  if 65535 < cmpctblock.blockTxCount then .error "indexes overflowed 16 bits"
  else .ok (cmpctblock.header.serialize ++ (leBytes 8 cmpctblock.nonce.toNat ++
    (serializeVector (cmpctblock.shorttxids.map serializeShortID) ++
      (serializePopField E cmpctblock.header cmpctblock.popData ++
        serializeVector (cmpctblock.prefilledtxn.map fun prefilled =>
          prefilled.serialize fAllowWitness)))))

def unserializeCompactBlock : ByteReader CBlockHeaderAndShortTxIDs := do
  let header ← readBlockHeader
  let nonce ← readUInt64
  let shorttxids_size ← readCompactSize
  let shorttxids ← readChunked readShortID shorttxids_size
  let popData ← readPopField deserialize header
  let prefilledtxn ← readVector (readPrefilled fAllowWitness)
  let cmpctblock : CBlockHeaderAndShortTxIDs := { header, nonce, shorttxids, prefilledtxn, popData }
  if 65535 < cmpctblock.blockTxCount then throw "indexes overflowed 16 bits"
  else pure cmpctblock

end Formats

/-! ### What is written is read back -/

section RoundTrips

variable {E : NodeEnv} {deserialize : PopDecoder} {fAllowWitness : Bool}

/-- The POP bit says whether there is PoP data, and what there is can be read. -/
structure PopRule (E : NodeEnv) (deserialize : PopDecoder) (header : CBlockHeader)
    (popData : PopData) : Prop where
  bit : header.hasPopBit = !popData.isEmpty
  readable : header.hasPopBit = true → PopReadable E deserialize popData

variable {popData : PopData} {block : CBlock} {cmpctblock : CBlockHeaderAndShortTxIDs}

theorem popData_eq_empty (h : popData.isEmpty = true) : popData = {} := by
  cases popData with
  | mk context vtbs atvs => simp_all [PopData.isEmpty]

theorem reads_popField {header : CBlockHeader} (hrule : PopRule E deserialize header popData) :
    Reads (readPopField deserialize header) (serializePopField E header popData) popData := by
  unfold readPopField serializePopField
  split
  · rename_i hbit
    exact (hrule.readable hbit).reads
  · rename_i hbit
    have hempty : popData.isEmpty = true := by
      have := hrule.bit
      simp_all
    rw [popData_eq_empty hempty]
    exact reads_pure _

/-- **A block is read back**, without the memo of its check. -/
theorem reads_block_format
    (hrule : PopRule E deserialize block.header block.popData) (hcount : block.vtx.length ≤ MAX_SIZE)
    (hvtx : ∀ tx ∈ block.vtx, tx.Readable fAllowWitness) :
    Reads (unserializeBlock deserialize fAllowWitness)
      (block.serialize (E.pop.encode block.popData) fAllowWitness)
      { block with fChecked := false } := by
  unfold CBlock.serialize
  rw [append_assoc]
  refine reads_bind (reads_blockHeader _) (reads_bind
    (reads_vector hcount fun tx hmem => (hvtx tx hmem).reads) ?_)
  exact reads_bind_pure (reads_popField hrule) (reads_pure _)

theorem reads_blockTransactions {resp : BlockTransactions}
    (hpop : PopReadable E deserialize resp.popData) (hcount : resp.txn.length ≤ MAX_SIZE)
    (htxn : ∀ tx ∈ resp.txn, tx.Readable fAllowWitness) :
    Reads (unserializeBlockTransactions deserialize fAllowWitness)
      (resp.serialize E fAllowWitness) resp := by
  rw [BlockTransactions.serialize, serializeVector, length_map, append_assoc]
  refine reads_bind (reads_uint256 _) (reads_bind (reads_compactSize hcount) (reads_bind
    (reads_chunked _ _ rfl fun tx hmem => (htxn tx hmem).reads) ?_))
  exact reads_bind_pure hpop.reads (reads_pure resp)

theorem reads_prefilled {prefilled : PrefilledTransaction}
    (h : prefilled.tx.Readable fAllowWitness) :
    Reads (readPrefilled fAllowWitness) (prefilled.serialize fAllowWitness) prefilled := by
  have hlt : prefilled.index.toNat < 65536 := prefilled.index.toNat_lt
  have hmax : MAX_SIZE = 33554432 := rfl
  refine reads_bind (reads_compactSize (by omega)) ?_
  rw [if_neg (by omega)]
  refine reads_bind_pure h.reads ?_
  rw [UInt16.ofNat_toNat]
  exact reads_pure prefilled

/-- Short ids of six bytes are read back, unless there are too many. -/
theorem reads_compactBlock_format
    (hrule : PopRule E deserialize cmpctblock.header cmpctblock.popData)
    (hcount : cmpctblock.blockTxCount ≤ 65535)
    (hids : ∀ shortid ∈ cmpctblock.shorttxids, shortid.toNat < 2 ^ 48)
    (hprefilled : ∀ prefilled ∈ cmpctblock.prefilledtxn, prefilled.tx.Readable fAllowWitness) :
    ∃ written, cmpctblock.serialize E fAllowWitness = .ok written ∧
      Reads (unserializeCompactBlock deserialize fAllowWitness) written cmpctblock := by
  have hmax : MAX_SIZE = 33554432 := rfl
  have hsum : cmpctblock.shorttxids.length + cmpctblock.prefilledtxn.length ≤ 65535 := hcount
  refine ⟨_, if_neg (by omega), ?_⟩
  rw [serializeVector, length_map, append_assoc]
  refine reads_bind (reads_blockHeader _) (reads_bind (reads_uint64 _) (reads_bind
    (reads_compactSize (by omega)) (reads_bind
      (reads_chunked _ _ rfl fun shortid hmem => reads_shortID (hids shortid hmem)) ?_)))
  refine reads_bind (reads_popField hrule) (reads_bind_pure (reads_vector (by omega)
    fun prefilled hmem => reads_prefilled (hprefilled prefilled hmem)) ?_)
  rw [if_neg (Nat.not_lt.mpr hcount)]
  exact reads_pure cmpctblock

/-- Only the coinbase is written as a transaction. -/
theorem reads_compactBlock {lib : ShortIdLib} {nonce : UInt64} {fUseWTXID : Bool}
    (hcmpct : E.compactBlock lib nonce block fUseWTXID = some cmpctblock)
    (hrule : PopRule E deserialize block.header block.popData) (hcount : block.vtx.length ≤ 65535)
    (hcoinbase : ∀ coinbase, block.vtx.head? = some coinbase → coinbase.Readable fAllowWitness) :
    ∃ written, cmpctblock.serialize E fAllowWitness = .ok written ∧
      Reads (unserializeCompactBlock deserialize fAllowWitness) written cmpctblock := by
  unfold NodeEnv.compactBlock at hcmpct
  split at hcmpct
  · cases hcmpct
  rename_i coinbase others hvtx
  cases hcmpct
  rw [hvtx] at hcount hcoinbase
  apply reads_compactBlock_format hrule
  · simpa [CBlockHeaderAndShortTxIDs.blockTxCount] using hcount
  · intro shortid hmem
    obtain ⟨tx, -, rfl⟩ := mem_map.mp hmem
    exact getShortID_lt lib _ nonce _
  · intro prefilled hmem
    rw [mem_singleton.mp hmem]
    exact hcoinbase coinbase rfl

end RoundTrips


/-! ### The HEADERS message -/

def MAX_HEADERS_RESULTS : Nat := 2000

def MAX_BLOCKS_TO_ANNOUNCE : Nat := 8

structure HeaderSource where
  chainActive : CChain
  getBlockHeader : CBlockIndex → CBlockHeader

structure CNodeState where
  pindexBestKnownBlock : Option CBlockIndex := none
  pindexBestHeaderSent : Option CBlockIndex := none
  fPreferHeaders : Bool := false
  fPreferHeaderAndIDs : Bool := false

def peerHasHeader (state : CNodeState) (pindex : CBlockIndex) : Bool :=
  state.pindexBestKnownBlock.any (fun best => best.getAncestor pindex.nHeight == some pindex) ||
    state.pindexBestHeaderSent.any fun best => best.getAncestor pindex.nHeight == some pindex

namespace HeaderSource

variable (source : HeaderSource)

/-- The loop that answers GETHEADERS, from `pindex` on. -/
def headersFrom (hashStop : UInt256) : Nat → Option CBlockIndex → List CBlockHeader
  | 0, _ => []
  | _ + 1, none => []
  | nLimit + 1, some pindex =>
    source.getBlockHeader pindex ::
      if nLimit = 0 ∨ pindex.getBlockHash = hashStop then []
      else headersFrom hashStop nLimit (source.chainActive.next pindex)

structure Announcement where
  fRevertToInv : Bool := false
  fFoundStartingHeader : Bool := false
  pBestIndex : Option CBlockIndex := none
  vHeaders : List CBlockHeader := []

/-- The loop of `SendMessages` over the blocks to announce. -/
def announceLoop (state : CNodeState) : List CBlockIndex → Announcement → Announcement
  | [], s => s
  | pindex :: rest, s =>
    if source.chainActive.operatorAt pindex.nHeight ≠ some pindex then
      { s with fRevertToInv := true }
    else if s.pBestIndex ≠ none ∧ pindex.pprev ≠ s.pBestIndex then { s with fRevertToInv := true }
    else
      let s := { s with pBestIndex := some pindex }
      let started := { s with
        fFoundStartingHeader := true
        vHeaders := s.vHeaders ++ [source.getBlockHeader pindex] }
      if s.fFoundStartingHeader then announceLoop state rest started
      else if peerHasHeader state pindex then announceLoop state rest s
      else if pindex.pprev.all (peerHasHeader state) then announceLoop state rest started
      else { s with fRevertToInv := true }

/-- The headers by which `SendMessages` announces blocks. -/
def announcedHeaders (state : CNodeState) (toAnnounce : List CBlockIndex) :
    Option (List CBlockHeader) :=
  if (!state.fPreferHeaders && (!state.fPreferHeaderAndIDs || 1 < toAnnounce.length)) ||
      MAX_BLOCKS_TO_ANNOUNCE < toAnnounce.length then none
  else
    let s := source.announceLoop state toAnnounce {}
    if s.fRevertToInv || s.vHeaders.isEmpty then none
    else if s.vHeaders.length == 1 && state.fPreferHeaderAndIDs then none
    else if state.fPreferHeaders then some s.vHeaders
    else none

inductive Sends : List CBlockHeader → Prop
  | answer (hashStop : UInt256) (pindex : Option CBlockIndex) :
      Sends (source.headersFrom hashStop MAX_HEADERS_RESULTS pindex)
  | announce (state : CNodeState) (toAnnounce : List CBlockIndex) (headers : List CBlockHeader)
      (h : source.announcedHeaders state toAnnounce = some headers) : Sends headers

variable {source}

theorem length_headersFrom_le (hashStop : UInt256) : ∀ (nLimit : Nat) (pindex : Option CBlockIndex),
    (source.headersFrom hashStop nLimit pindex).length ≤ nLimit
  | 0, _ => Nat.le_refl 0
  | nLimit + 1, none => Nat.zero_le _
  | nLimit + 1, some pindex => by
    rw [headersFrom, length_cons]
    split
    · simp
    · exact Nat.succ_le_succ (length_headersFrom_le hashStop nLimit _)

theorem length_announceLoop_le (state : CNodeState) :
    ∀ (toAnnounce : List CBlockIndex) (s : Announcement),
      (source.announceLoop state toAnnounce s).vHeaders.length ≤
        s.vHeaders.length + toAnnounce.length
  | [], s => Nat.le_refl _
  | pindex :: rest, s => by
    -- an iteration adds one header at most, whichever way it goes on
    have hstarted := length_announceLoop_le state rest { s with
      pBestIndex := some pindex
      fFoundStartingHeader := true
      vHeaders := s.vHeaders ++ [source.getBlockHeader pindex] }
    have hpassed := length_announceLoop_le state rest { s with pBestIndex := some pindex }
    rw [length_append, length_singleton, Nat.add_assoc, Nat.add_comm 1] at hstarted
    rw [announceLoop, length_cons]
    split
    · exact Nat.le_add_right _ _
    split
    · exact Nat.le_add_right _ _
    dsimp only
    split
    · exact hstarted
    split
    · exact Nat.le_succ_of_le hpassed
    split
    · exact hstarted
    · exact Nat.le_add_right _ _

theorem Sends.length_le {headers : List CBlockHeader} (h : source.Sends headers) :
    headers.length ≤ MAX_HEADERS_RESULTS := by
  cases h with
  | answer hashStop pindex => exact length_headersFrom_le hashStop _ pindex
  | announce state toAnnounce headers h =>
    have hlength : (source.announceLoop state toAnnounce {}).vHeaders.length ≤
        0 + toAnnounce.length := length_announceLoop_le state toAnnounce {}
    have hmax : MAX_BLOCKS_TO_ANNOUNCE ≤ MAX_HEADERS_RESULTS := by decide
    unfold announcedHeaders at h
    split at h
    · cases h
    rename_i hrevert
    simp only [Bool.or_eq_true, decide_eq_true_eq, not_or] at hrevert
    dsimp only at h
    split at h
    · cases h
    split at h
    · cases h
    split at h
    · cases h
      omega
    · cases h

end HeaderSource

section HeadersMessage

variable (E : NodeEnv) (deserialize : PopDecoder)

/-- A HEADERS message is a list of blocks without transactions. -/
def headersPayload (headers : List CBlockHeader) : Bytes :=
  serializeVector (headers.map fun header =>
    CBlock.serialize { header, vtx := [] } (E.pop.encode {}) true)

inductive HeadersOutcome where
  | ignored
  | misbehaving (nCount : Nat)
  | processHeadersMessage (headers : List CBlockHeader)
  deriving DecidableEq, Repr

/-- The number of transactions and the PoP data are dropped. -/
def readHeaderEntry : ByteReader CBlockHeader := do
  let header ← readBlockHeader
  let _ ← readCompactSize
  if header.hasPopBit then do
    let _ ← unserializePopData deserialize
    pure header
  else pure header

def receiveHeaders (fImporting fReindex : Bool) : ByteReader HeadersOutcome :=
  if fImporting || fReindex then pure .ignored
  else do
    let nCount ← readCompactSize
    if MAX_HEADERS_RESULTS < nCount then pure (.misbehaving nCount)
    else do
      let headers ← readList (readHeaderEntry deserialize) nCount
      pure (.processHeadersMessage headers)

variable {E deserialize}

theorem reads_headerEntry (hempty : PopReadable E deserialize {}) (header : CBlockHeader) :
    Reads (readHeaderEntry deserialize)
      (CBlock.serialize { header, vtx := [] } (E.pop.encode {}) true) header := by
  unfold CBlock.serialize
  rw [append_assoc]
  have hcount : Reads readCompactSize (serializeVector []) 0 := by
    rw [serializeVector, flatten_nil, append_nil]
    exact reads_compactSize (by decide)
  refine reads_bind (reads_blockHeader header) (reads_bind hcount ?_)
  dsimp only
  split
  · exact reads_bind_pure hempty.reads (reads_pure header)
  · exact reads_pure header

/-- **A list of headers that is not too long is read back.** -/
theorem reads_headers (hempty : PopReadable E deserialize {}) {headers : List CBlockHeader}
    (hcount : headers.length ≤ MAX_HEADERS_RESULTS) :
    Reads (receiveHeaders deserialize false false) (headersPayload E headers)
      (.processHeadersMessage headers) := by
  have hmax : MAX_HEADERS_RESULTS ≤ MAX_SIZE := by decide
  rw [headersPayload, serializeVector, length_map]
  refine reads_bind (reads_compactSize (by omega)) ?_
  rw [if_neg (Nat.not_lt.mpr hcount)]
  exact reads_bind_pure (reads_list fun header _ => reads_headerEntry hempty header)
    (reads_pure _)

end HeadersMessage

/-! ### The four formats -/

/-- Blocks, compact blocks, answers and HEADERS are read back byte for byte. -/
theorem wire_formats_round_trip (E : NodeEnv) (deserialize : PopDecoder) :
    (∀ (block : CBlock) (fAllowWitness : Bool),
      PopRule E deserialize block.header block.popData → block.vtx.length ≤ MAX_SIZE →
      (∀ tx ∈ block.vtx, tx.Readable fAllowWitness) →
      Reads (unserializeBlock deserialize fAllowWitness)
        (block.serialize (E.pop.encode block.popData) fAllowWitness)
        { block with fChecked := false }) ∧
    (∀ (block : CBlock) (lib : ShortIdLib) (nonce : UInt64) (fUseWTXID fAllowWitness : Bool)
      (cmpctblock : CBlockHeaderAndShortTxIDs),
      E.compactBlock lib nonce block fUseWTXID = some cmpctblock →
      PopRule E deserialize block.header block.popData → block.vtx.length ≤ 65535 →
      (∀ coinbase, block.vtx.head? = some coinbase → coinbase.Readable fAllowWitness) →
      ∃ written, cmpctblock.serialize E fAllowWitness = .ok written ∧
        Reads (unserializeCompactBlock deserialize fAllowWitness) written cmpctblock) ∧
    (∀ (resp : BlockTransactions) (fAllowWitness : Bool),
      PopReadable E deserialize resp.popData → resp.txn.length ≤ MAX_SIZE →
      (∀ tx ∈ resp.txn, tx.Readable fAllowWitness) →
      Reads (unserializeBlockTransactions deserialize fAllowWitness)
        (resp.serialize E fAllowWitness) resp) ∧
    ∀ (source : HeaderSource) (headers : List CBlockHeader), source.Sends headers →
      PopReadable E deserialize {} →
      Reads (receiveHeaders deserialize false false) (headersPayload E headers)
        (.processHeadersMessage headers) := by
  refine ⟨?_, ?_, ?_, ?_⟩
  · exact fun block _ hrule hcount hvtx => reads_block_format hrule hcount hvtx
  · intro block lib nonce fUseWTXID fAllowWitness cmpctblock hcmpct hrule hcount hcoinbase
    exact reads_compactBlock hcmpct hrule hcount hcoinbase
  · exact fun resp _ hpop hcount htxn => reads_blockTransactions hpop hcount htxn
  · exact fun source headers hsends hempty => reads_headers hempty hsends.length_le


namespace Regtest

/-- A reader for PoP data of at most one ATV. -/
def deserializeATV : PopDecoder := fun bytes =>
  if bytes = [] then .ok {} else .ok { atvs := [bytes] }

def endorsedHeader : CBlockHeader := { CBlockHeader.null with nVersion := 0x80004 }

def endorsedBlock : CBlock where
  header := endorsedHeader
  vtx := [witnessTx]
  popData := { atvs := [[1, 2, 3]] }

theorem witnessTx_readable : witnessTx.Readable true :=
  ⟨by decide, ⟨by decide, by decide⟩, by constructor <;> decide, .inl rfl⟩

theorem endorsedBlock_popRule : PopRule env deserializeATV endorsedHeader endorsedBlock.popData :=
  ⟨by decide, fun _ => ⟨by decide, rfl⟩⟩

def headerSource : HeaderSource where
  chainActive := ⟨[some ⟨⟨5, 0⟩, []⟩]⟩
  getBlockHeader _ := endorsedHeader

theorem endorsedBlock_relayed : Reads (unserializeBlock deserializeATV true)
      (endorsedBlock.serialize (env.pop.encode endorsedBlock.popData) true) endorsedBlock ∧
    (∃ cmpctblock written, env.compactBlock shortIdLib 7 endorsedBlock true = some cmpctblock ∧
      cmpctblock.serialize env true = .ok written ∧
      Reads (unserializeCompactBlock deserializeATV true) written cmpctblock) ∧
    Reads (unserializeBlockTransactions deserializeATV true)
      (BlockTransactions.serialize env true ⟨5, [witnessTx], {}⟩) ⟨5, [witnessTx], {}⟩ ∧
    Reads (receiveHeaders deserializeATV false false) (headersPayload env [endorsedHeader])
      (.processHeadersMessage [endorsedHeader]) := by
  obtain ⟨hblock, hcompact, hanswer, hheaders⟩ := wire_formats_round_trip env deserializeATV
  have htx : ∀ tx ∈ [witnessTx], tx.Readable true := by
    intro tx hmem
    rw [mem_singleton.mp hmem]
    exact witnessTx_readable
  refine ⟨?_, ?_, ?_, ?_⟩
  · exact hblock endorsedBlock true endorsedBlock_popRule (by decide) htx
  · obtain ⟨written, hwritten⟩ := hcompact endorsedBlock shortIdLib 7 true true _ rfl
      endorsedBlock_popRule (by decide) fun coinbase hhead => htx coinbase (mem_of_head? hhead)
    exact ⟨_, written, rfl, hwritten⟩
  · exact hanswer ⟨5, [witnessTx], {}⟩ true ⟨by decide, rfl⟩ (by decide) htx
  · exact hheaders headerSource [endorsedHeader] (.answer 0 (some ⟨⟨5, 0⟩, []⟩)) ⟨by decide, rfl⟩

/-- A block with a transaction that has an output and no input. -/
def inputlessBlock : CBlock where
  header := .null
  vtx := [{ vin := [], vout := [⟨0, []⟩] }]

/-- The empty list of inputs is taken for the mark of the extended format. -/
theorem inputlessBlock_not_read :
    PopRule env deserializeATV inputlessBlock.header inputlessBlock.popData ∧
    (unserializeBlock deserializeATV true).run
      (inputlessBlock.serialize (env.pop.encode inputlessBlock.popData) true) =
        .error "Superfluous witness record" := by
  constructor
  · exact ⟨by decide, fun _ => ⟨by decide, rfl⟩⟩
  · decide

end Regtest

end VBitcoin
