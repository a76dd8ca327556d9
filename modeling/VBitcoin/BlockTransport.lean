import VBitcoin.BlockEncoding
import VBitcoin.MinerLimits
import VBitcoin.Transport

/-!
**Sending and importing blocks** — as a message to a peer and as a record that
`LoadExternalBlockFile` finds again, both of at most four million bytes.  The weight rule
leaves three bytes for each stripped byte and one for each unused unit; PoP data has no weight
and has to fit there.  A block that does not serialize PoP data loses the size of empty PoP
data.
-/

namespace VBitcoin

/-! ### Block files -/

def MAX_BLOCK_SERIALIZED_SIZE : Nat := 4000000

/-- `WriteBlockToDisk`: the network's magic bytes, the size and the block. -/
def diskRecord (messageStart : FixedBytes 4) (block : Bytes) : Bytes :=
  messageStart.1 ++ leBytes 4 block.length ++ block

/-- The search for the next record with a size that a block can have. -/
def nextBlock (messageStart : FixedBytes 4) : Bytes → Option (Nat × Bytes)
  | [] => none
  | byte :: rest =>
    if messageStart.1.head? == some byte then
      let blkdat := byte :: rest
      if blkdat.length < 4 then none
      else if blkdat.take 4 != messageStart.1 then nextBlock messageStart rest
      else if blkdat.length < 8 then none
      else
        let nSize := readLE ((blkdat.drop 4).take 4)
        if nSize < 80 || MAX_BLOCK_SERIALIZED_SIZE < nSize then nextBlock messageStart rest
        else some (nSize, blkdat.drop 8)
    else nextBlock messageStart rest

theorem nextBlock_size (messageStart : FixedBytes 4) (file : Bytes) {nSize : Nat} {found : Bytes}
    (h : nextBlock messageStart file = some (nSize, found)) :
    80 ≤ nSize ∧ nSize ≤ MAX_BLOCK_SERIALIZED_SIZE := by
  induction file with
  | nil => cases h
  | cons byte rest ih =>
    simp only [nextBlock] at h
    split at h
    · split at h
      · cases h
      · split at h
        · exact ih h
        · split at h
          · cases h
          · split at h
            · exact ih h
            · rename_i hsize
              cases h
              simp only [Bool.or_eq_true, decide_eq_true_eq, not_or, not_lt] at hsize
              exact hsize
    · exact ih h

theorem nextBlock_diskRecord (messageStart : FixedBytes 4) {block : Bytes} (later : Bytes)
    (hlow : 80 ≤ block.length) (hhigh : block.length ≤ MAX_BLOCK_SERIALIZED_SIZE) :
    nextBlock messageStart (diskRecord messageStart block ++ later) =
      some (block.length, block ++ later) := by
  obtain ⟨start, hstart⟩ := messageStart
  have hsize : readLE (leBytes 4 block.length) = block.length := by
    apply readLE_leBytes
    simp only [MAX_BLOCK_SERIALIZED_SIZE] at hhigh
    omega
  have htake : (diskRecord ⟨start, hstart⟩ block ++ later).take 4 = start := by
    simp [diskRecord, hstart]
  have hfield : ((diskRecord ⟨start, hstart⟩ block ++ later).drop 4).take 4 =
      leBytes 4 block.length := by
    simp [diskRecord, hstart]
  have hblock : (diskRecord ⟨start, hstart⟩ block ++ later).drop 8 = block ++ later := by
    simp [diskRecord, hstart, List.drop_append, List.drop_of_length_le]
  have hlength : 8 ≤ (diskRecord ⟨start, hstart⟩ block ++ later).length := by
    simp only [diskRecord, List.length_append, hstart, leBytes_length]
    omega
  have hhead : start.head? = (diskRecord ⟨start, hstart⟩ block ++ later).head? := by
    cases start with
    | nil => cases hstart
    | cons byte rest => rfl
  generalize diskRecord ⟨start, hstart⟩ block ++ later = file at *
  cases file with
  | nil => simp at hlength
  | cons byte rest =>
    have hfits : ¬ (block.length < 80 ∨ MAX_BLOCK_SERIALIZED_SIZE < block.length) := by omega
    have hlong : ¬ (byte :: rest).length < 4 ∧ ¬ (byte :: rest).length < 8 := by omega
    simp only [nextBlock, hhead, List.head?_cons, beq_self_eq_true, if_true, htake, hlong.1,
      hlong.2, if_false, bne_self_eq_false, Bool.false_eq_true, hfield, hsize, hblock,
      Bool.or_eq_true, decide_eq_true_eq, hfits]

namespace NodeEnv

variable (E : NodeEnv)

/-! ### Blocks -/

def blockBytes (block : CBlock) : Bytes := block.serialize (E.pop.encode block.popData) true

variable (messageStart : FixedBytes 4)

def Relayed (block : CBlock) : Prop :=
  ∀ (d : V1TransportDeserializer) (chunks : List Bytes), d.Fresh →
    chunks.flatten = E.pushMessage messageStart NetMsgType.BLOCK (E.blockBytes block) →
    ∃ d' msg, E.receiveAll messageStart chunks d [] = some (d', [msg]) ∧
      msg.m_recv = E.blockBytes block ∧ msg.m_command = NetMsgType.BLOCK ∧
      msg.m_valid_netmagic = true ∧ msg.m_valid_header = true ∧ msg.m_valid_checksum = true

def Imported (block : CBlock) : Prop :=
  ∀ later, nextBlock messageStart (diskRecord messageStart (E.blockBytes block) ++ later) =
    some ((E.blockBytes block).length, E.blockBytes block ++ later)

def popDataSize (block : CBlock) : Nat :=
  if block.header.hasPopBit then (serializeBytes (E.pop.encode block.popData)).length else 0

def bodyStrippedSize (block : CBlock) : Nat :=
  80 + sizeOfCompactSize block.vtx.length + (block.vtx.map CTransaction.strippedSize).sum

def bodyWeight (block : CBlock) : Nat :=
  WITNESS_SCALE_FACTOR * (80 + sizeOfCompactSize block.vtx.length) +
    (block.vtx.map getTransactionWeight).sum

def popDataRoom (block : CBlock) : Int :=
  (WITNESS_SCALE_FACTOR - 1) * bodyStrippedSize block +
    ((MAX_BLOCK_WEIGHT : Int) - bodyWeight block)

theorem blockBytes_length (block : CBlock) :
    ((E.blockBytes block).length : Int) =
      MAX_BLOCK_WEIGHT - popDataRoom block + E.popDataSize block := by
  have hweight := CTransaction.weight_eq_sum block.vtx
  have htotal : (block.vtx.map fun tx => (tx.serialize true).length).sum =
      (block.vtx.map CTransaction.totalSize).sum := rfl
  rw [blockBytes, E.length_serializeBlock, htotal, popDataRoom, bodyWeight, bodyStrippedSize,
    hweight, popDataSize]
  simp only [WITNESS_SCALE_FACTOR]
  push_cast
  omega

theorem blockBytes_length_ge (block : CBlock) : 80 ≤ (E.blockBytes block).length := by
  rw [blockBytes, E.length_serializeBlock]
  omega

theorem receivedMessage_block {data : Bytes}
    (hsize : (E.messageHeader messageStart NetMsgType.BLOCK data).nMessageSize.toNat = data.length)
    (hlimit : data.length ≤ MAX_PROTOCOL_MESSAGE_LENGTH) :
    (E.receivedMessage messageStart (E.messageHeader messageStart NetMsgType.BLOCK data) data).m_command =
        NetMsgType.BLOCK ∧
      (E.receivedMessage messageStart (E.messageHeader messageStart NetMsgType.BLOCK
        data) data).m_valid_netmagic = true ∧
      (E.receivedMessage messageStart (E.messageHeader messageStart NetMsgType.BLOCK
        data) data).m_valid_header = true ∧
      (E.receivedMessage messageStart (E.messageHeader messageStart NetMsgType.BLOCK
        data) data).m_valid_checksum = true := by
  have hcommand : (CMessageHeader.commandChars NetMsgType.BLOCK).1.takeWhile (· != 0) =
      NetMsgType.BLOCK := by decide
  have hvalid : CMessageHeader.commandValid (CMessageHeader.commandChars NetMsgType.BLOCK).1 =
      true := by decide
  have hmax : (E.messageHeader messageStart NetMsgType.BLOCK data).nMessageSize.toNat ≤ MAX_SIZE := by
    simp only [MAX_SIZE, MAX_PROTOCOL_MESSAGE_LENGTH] at hlimit ⊢
    omega
  refine ⟨hcommand, beq_self_eq_true _, ?_, beq_self_eq_true _⟩
  simp only [receivedMessage, CMessageHeader.isValid, Bool.and_eq_true, decide_eq_true_eq]
  exact ⟨⟨beq_self_eq_true _, hvalid⟩, hmax⟩

theorem relayed_iff (block : CBlock) :
    E.Relayed messageStart block ↔
      (E.blockBytes block).length ≤ MAX_PROTOCOL_MESSAGE_LENGTH := by
  constructor
  · intro h
    -- all bytes at once
    obtain ⟨d', msg, hreceived, hdata, -⟩ := h
      { hdr := E.messageHeader messageStart NetMsgType.BLOCK (E.blockBytes block) } [_]
      ⟨rfl, rfl, rfl⟩ (List.append_nil _)
    have hlimited := receiveAll_size E messageStart ⟨rfl, rfl, rfl⟩ hreceived
    rw [← hdata]
    exact hlimited msg List.mem_cons_self
  · intro hlimit d chunks hfresh hbytes
    have hsize : (E.messageHeader messageStart NetMsgType.BLOCK
        (E.blockBytes block)).nMessageSize.toNat = (E.blockBytes block).length := by
      simp only [MAX_PROTOCOL_MESSAGE_LENGTH] at hlimit
      simp only [messageHeader, UInt32.toNat_ofNat']
      omega
    obtain ⟨d', hreceived⟩ := receiveAll_message E messageStart hsize hlimit hfresh hbytes
    exact ⟨d', _, hreceived, rfl, E.receivedMessage_block messageStart hsize hlimit⟩

theorem imported_iff (block : CBlock) :
    E.Imported messageStart block ↔
      (E.blockBytes block).length ≤ MAX_BLOCK_SERIALIZED_SIZE := by
  constructor
  · intro h
    exact (nextBlock_size messageStart _ (h [])).2
  · intro hhigh later
    exact nextBlock_diskRecord messageStart later (E.blockBytes_length_ge block) hhigh

/-- Just when the PoP data fits into the room that the rest leaves. -/
theorem relayed_and_imported_iff (messageStart : FixedBytes 4) (block : CBlock) :
    E.Relayed messageStart block ∧ E.Imported messageStart block ↔
      (E.popDataSize block : Int) ≤ popDataRoom block := by
  have hlength := E.blockBytes_length block
  rw [E.relayed_iff, E.imported_iff]
  simp only [MAX_BLOCK_WEIGHT, MAX_BLOCK_SERIALIZED_SIZE, MAX_PROTOCOL_MESSAGE_LENGTH] at hlength ⊢
  omega

/-- **A block arrives as it was sent**, however the stream is cut, and is imported as it was stored,
    whatever follows in the file. -/
theorem block_arrives (messageStart : FixedBytes 4) {deserialize : PopDecoder} (block : CBlock)
    (hrule : PopRule E deserialize block.header block.popData)
    (hcount : block.vtx.length ≤ MAX_SIZE) (hvtx : ∀ tx ∈ block.vtx, tx.Readable true)
    (hsize : (E.blockBytes block).length ≤ MAX_BLOCK_SERIALIZED_SIZE) :
    (∀ (d : V1TransportDeserializer) (chunks : List Bytes), d.Fresh →
      chunks.flatten = E.pushMessage messageStart NetMsgType.BLOCK (E.blockBytes block) →
      ∃ d' msg, E.receiveAll messageStart chunks d [] = some (d', [msg]) ∧
        (unserializeBlock deserialize true).run msg.m_recv =
          .ok ({ block with fChecked := false }, [])) ∧
    ∀ later, ∃ nSize found,
      nextBlock messageStart (diskRecord messageStart (E.blockBytes block) ++ later) =
        some (nSize, found) ∧
      (unserializeBlock deserialize true).run found =
        .ok ({ block with fChecked := false }, later) := by
  have hreads := reads_block_format hrule hcount hvtx
  constructor
  · intro d chunks hfresh hbytes
    obtain ⟨d', msg, hreceived, hdata, -⟩ :=
      (E.relayed_iff messageStart block).mpr hsize d chunks hfresh hbytes
    refine ⟨d', msg, hreceived, ?_⟩
    rw [hdata, ← List.append_nil (E.blockBytes block)]
    exact hreads []
  · intro later
    exact ⟨_, _, (E.imported_iff messageStart block).mpr hsize later, hreads later⟩

/-! ### What the weight leaves out -/

/-- It is serialized with its length: even empty PoP data has a weight. -/
theorem getPopDataWeight_pos (popData : PopData) : 0 < E.getPopDataWeight popData := by
  have hsize : 0 < (serializeBytes (E.pop.encode popData)).length := by
    rw [serializeBytes, List.length_append, writeCompactSize_length]
    exact Nat.add_pos_left (one_le_sizeOfCompactSize _) _
  exact Nat.add_pos_right _ hsize

theorem getBlockWeight_eq_bodyWeight (block : CBlock) :
    E.getBlockWeight block = bodyWeight block -
      if block.header.hasPopBit then 0 else (E.getPopDataWeight block.popData : Int) :=
  E.getBlockWeight_eq block

/-- **The weight is that of header and transactions** just with the version bit: without it, PoP
    data is taken off that is not serialized. -/
theorem getBlockWeight_ignores_popData_iff {block other : CBlock}
    (hrule : block.header.hasPopBit = !block.popData.isEmpty)
    (hother : other.header.hasPopBit = !other.popData.isEmpty) (hvtx : other.vtx = block.vtx) :
    (E.getBlockWeight block =
        (4 * 80 + 4 * sizeOfCompactSize block.vtx.length +
          (block.vtx.map getTransactionWeight).sum : Nat) ↔
      block.header.hasPopBit = true) ∧
    (E.getBlockWeight other = E.getBlockWeight block ↔
      other.header.hasPopBit = block.header.hasPopBit) := by
  have hbody : bodyWeight block = 4 * 80 + 4 * sizeOfCompactSize block.vtx.length +
      (block.vtx.map getTransactionWeight).sum := by
    rw [bodyWeight, Nat.mul_add, WITNESS_SCALE_FACTOR]
  have hsame : bodyWeight other = bodyWeight block := by rw [bodyWeight, bodyWeight, hvtx]
  have hpos := E.getPopDataWeight_pos block.popData
  have hposOther := E.getPopDataWeight_pos other.popData
  rw [E.getBlockWeight_eq_bodyWeight, E.getBlockWeight_eq_bodyWeight, hsame, ← hbody]
  cases hbit : block.header.hasPopBit <;> cases hbitOther : other.header.hasPopBit
  · -- without the bit, both have the same empty PoP data
    have hempty : block.popData = {} := PopData.isEmpty_iff.mp (by simpa [hbit] using hrule.symm)
    have hemptyOther : other.popData = {} :=
      PopData.isEmpty_iff.mp (by simpa [hbitOther] using hother.symm)
    simp only [hempty, hemptyOther, Bool.false_eq_true, if_false, iff_false, and_true]
    rw [hempty] at hpos
    omega
  · simp
    omega
  · simp
    omega
  · simp

end NodeEnv

namespace Regtest

def limitedEnv : NodeEnv :=
  { env with
    pop := { pop with
      check := fun popData =>
        if (pop.encode popData).length ≤ 4000000 then none else some ("popdata-size", "") } }

def heavyHeader : CBlockHeader where
  nVersion := 0x80004
  hashPrevBlock := env.tipHash [genesis]
  hashMerkleRoot := (env.computeMerkleRoot [env.txid filler]).1
  nTime := 1631200600
  nBits := 0x207fffff
  nNonce := 0

theorem heavyHeader_hasPopBit : heavyHeader.hasPopBit = true := by decide

def heavyBlock (n : Nat) : CBlock where
  header := heavyHeader
  vtx := [filler]
  popData := { atvs := [List.replicate n 0] }

theorem heavyBlock_encode (n : Nat) : (pop.encode (heavyBlock n).popData).length = n := by
  simp [pop, heavyBlock]

theorem heavyBlock_popData {n : Nat} (hn : n ≤ 4000000) :
    limitedEnv.checkPopData (heavyBlock n) = .ok () := by
  have hcheck : limitedEnv.pop.check (heavyBlock n).popData = none := by
    have hlength : (pop.encode (heavyBlock n).popData).length ≤ 4000000 := by
      rw [heavyBlock_encode]
      exact hn
    exact if_pos hlength
  have hbit : (heavyBlock n).header.hasPopBit = true := heavyHeader_hasPopBit
  have hempty : (heavyBlock n).popData.isEmpty = false := rfl
  simp only [NodeEnv.checkPopData, hbit, hempty, hcheck]
  rfl

theorem heavyBlock_weight (n : Nat) : limitedEnv.getBlockWeight (heavyBlock n) = 576 := by
  have hbit : (heavyBlock n).header.hasPopBit = true := heavyHeader_hasPopBit
  have htxs : (heavyBlock n).vtx = [filler] := rfl
  rw [NodeEnv.getBlockWeight_eq, hbit, if_pos rfl, htxs]
  decide

theorem heavyBlock_checked {n : Nat} (hn : n ≤ 4000000) :
    accepted (limitedEnv.checkBlock (heavyBlock n) true) = true ∧
      accepted (limitedEnv.contextualCheckBlock (heavyBlock n) (env.tipIndex [genesis]) true) =
        true := by
  have hheader : (heavyBlock n).header = heavyHeader := rfl
  have htxs : (heavyBlock n).vtx = [filler] := rfl
  have hchecked : (heavyBlock n).fChecked = false := rfl
  have hroot : limitedEnv.verifyTopLevelMerkleRoot (heavyBlock n) (env.tipIndex [genesis]) =
      .ok () := by
    have hactive : limitedEnv.isPopActive (heightAfter (env.tipIndex [genesis])) = false := by
      decide
    rw [NodeEnv.verifyTopLevelMerkleRoot_eq_ok]
    simp only [NodeEnv.bodyCommitted, NodeEnv.topLevelMerkleRoot, NodeEnv.blockMerkleRoot, hactive,
      htxs, hheader, Bool.not_false, if_true]
    decide +kernel
  have hrules : limitedEnv.checkBlockRules (heavyBlock n) true = .ok () := by
    simp only [NodeEnv.checkBlockRules, hheader, heavyBlock_popData hn, heavyBlock_weight, htxs,
      ok_bind]
    decide +kernel
  constructor
  · simp only [NodeEnv.checkBlock, hchecked, Bool.false_eq_true, if_false, hrules, ok_bind]
    rfl
  · have hbip34 : decide (limitedEnv.consensus.BIP34Height ≤
        heightAfter (env.tipIndex [genesis])) = false := by decide
    have hnone : commitmentIndexFrom 0 filler.vout none = none := by decide
    simp only [NodeEnv.contextualCheckBlock, hroot, NodeEnv.checkWitnessCommitment,
      getWitnessCommitmentIndex, heavyBlock_weight, hheader, htxs, hbip34, hnone, onlyIf,
      Bool.false_eq_true, if_false]
    decide

def messageStart : FixedBytes 4 := ⟨[3, 3, 3, 3], rfl⟩

theorem endorsedBlock_arrives : ∃ d' msg, env.receiveAll messageStart
      [env.pushMessage messageStart NetMsgType.BLOCK (env.blockBytes endorsedBlock)]
      { hdr := env.messageHeader messageStart NetMsgType.BLOCK [] } [] = some (d', [msg]) ∧
    (unserializeBlock deserializeATV true).run msg.m_recv = .ok (endorsedBlock, []) :=
  (env.block_arrives messageStart endorsedBlock endorsedBlock_popRule (by decide)
    (fun _ hmem => List.mem_singleton.mp hmem ▸ witnessTx_readable) (by decide +kernel)).1 _ _
      ⟨rfl, rfl, rfl⟩ (List.append_nil _)

/-- Valid, but no peer receives it and a reindex skips it. -/
theorem heavyBlock_lost :
    accepted (limitedEnv.checkBlock (heavyBlock 4000000) true) = true ∧
      accepted (limitedEnv.contextualCheckBlock (heavyBlock 4000000) (env.tipIndex [genesis])
        true) = true ∧
      ¬ limitedEnv.Relayed messageStart (heavyBlock 4000000) ∧
      ¬ limitedEnv.Imported messageStart (heavyBlock 4000000) := by
  obtain ⟨hcheck, hcontext⟩ := heavyBlock_checked (Nat.le_refl 4000000)
  have hlength : 4000000 < (limitedEnv.blockBytes (heavyBlock 4000000)).length := by
    have hpop : (limitedEnv.pop.encode (heavyBlock 4000000).popData).length = 4000000 :=
      heavyBlock_encode 4000000
    have hbit : (heavyBlock 4000000).header.hasPopBit = true := heavyHeader_hasPopBit
    rw [NodeEnv.blockBytes, NodeEnv.length_serializeBlock, hbit, if_pos rfl, serializeBytes,
      List.length_append, hpop]
    omega
  refine ⟨hcheck, hcontext, ?_, ?_⟩
  · rw [NodeEnv.relayed_iff, MAX_PROTOCOL_MESSAGE_LENGTH]
    omega
  · rw [NodeEnv.imported_iff, MAX_BLOCK_SERIALIZED_SIZE]
    omega

/-! ### Blocks with and without the version bit -/

def lightBlock : CBlock :=
  { heavyBlock 0 with header := { heavyHeader with nVersion := 4 }, popData := {} }

theorem heavyBlock_ignores_popData :
    (limitedEnv.getBlockWeight (heavyBlock 1) =
        (4 * 80 + 4 * sizeOfCompactSize (heavyBlock 1).vtx.length +
          ((heavyBlock 1).vtx.map getTransactionWeight).sum : Nat) ↔
      (heavyBlock 1).header.hasPopBit = true) ∧
    (limitedEnv.getBlockWeight (heavyBlock 2) = limitedEnv.getBlockWeight (heavyBlock 1) ↔
      (heavyBlock 2).header.hasPopBit = (heavyBlock 1).header.hasPopBit) :=
  limitedEnv.getBlockWeight_ignores_popData_iff heavyHeader_hasPopBit heavyHeader_hasPopBit rfl

/-- Four units less than its header and transactions. -/
theorem lightBlock_weight :
    accepted (limitedEnv.checkPopData lightBlock) = true ∧
      lightBlock.header.hasPopBit = (!lightBlock.popData.isEmpty) ∧
      limitedEnv.getBlockWeight lightBlock = 572 ∧
      4 * 80 + 4 * sizeOfCompactSize lightBlock.vtx.length +
        (lightBlock.vtx.map getTransactionWeight).sum = 576 ∧
      limitedEnv.getBlockWeight (heavyBlock 1) = 576 ∧
      lightBlock.vtx = (heavyBlock 1).vtx := by
  refine ⟨by decide, by decide, by decide +kernel, by decide,
    heavyBlock_weight 1, rfl⟩

end Regtest

end VBitcoin
