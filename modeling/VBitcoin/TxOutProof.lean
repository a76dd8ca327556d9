import VBitcoin.BlockTree
import VBitcoin.MinerLimits
import VBitcoin.PartialMerkleTree
import VBitcoin.Undo

/-!
**Proofs that transactions are in a block** (`gettxoutproof`, `verifytxoutproof`) — a header
with a partial Merkle tree over the transaction ids (`CMerkleBlock`).  Once PoP is active the
header commits to the top-level root, which the extractor does not compute.
-/

namespace VBitcoin

open Codec List

/-! ### The serialized tree -/

def bitsToNat : List Bool → Nat
  | [] => 0
  | bit :: rest => bit.toNat + 2 * bitsToNat rest

variable (vBits : List Bool)

def packBits : Bytes :=
  (List.range ((vBits.length + 7) / 8)).map fun i =>
    UInt8.ofNat (bitsToNat ((vBits.drop (i * 8)).take 8))

def unpackBits (vBytes : Bytes) : List Bool :=
  (List.range (vBytes.length * 8)).map fun p => (vBytes.getD (p / 8) 0).toNat.testBit (p % 8)

structure CMerkleBlock where
  header : CBlockHeader
  txn : CPartialMerkleTree
  deriving DecidableEq, Repr

def CPartialMerkleTree.serialize (txn : CPartialMerkleTree) : Bytes :=
  leBytes 4 txn.nTransactions ++
    (serializeVector (txn.vHash.map serializeUInt256) ++ serializeBytes (packBits txn.vBits))

def CMerkleBlock.serialize (mb : CMerkleBlock) : Bytes :=
  mb.header.serialize ++ mb.txn.serialize

def readPartialMerkleTree : ByteReader CPartialMerkleTree := do
  let nTransactions ← readNumber 4
  let nHashes ← readCompactSize
  let vHash ← readList readUInt256 nHashes
  let nBytes ← readCompactSize
  let vBytes ← readBlock endOfFile nBytes
  pure { nTransactions, vBits := unpackBits vBytes, vHash, fBad := false }

def readMerkleBlock : ByteReader CMerkleBlock := do
  let header ← readBlockHeader
  let txn ← readPartialMerkleTree
  pure { header, txn }

/-! ### The remote procedure calls -/

inductive RPCErrorCode where
  | RPC_INVALID_PARAMETER
  | RPC_INVALID_ADDRESS_OR_KEY
  | RPC_INTERNAL_ERROR
  deriving DecidableEq, Repr

inductive RpcError where
  | jsonRPCError (code : RPCErrorCode) (message : String)
  | streamFailure (what : String)
  | stop (stop : Stop)
  deriving DecidableEq, Repr

abbrev Rpc (α : Type) := Except RpcError α

structure ProofNode where
  lookupBlockIndex : UInt256 → Option CBlockIndex
  tip : Option CBlockIndex
  nTx : CBlockIndex → Nat
  /-- `AccessByTxid`: the height of a coin of the transaction, if one is unspent. -/
  accessByTxid : UInt256 → Option Nat
  /-- `GetTransaction`: the block of the transaction, by the mempool and the index. -/
  getTransaction : UInt256 → Option UInt256
  readBlockFromDisk : CBlockIndex → Option CBlock

/-- `std::set` refuses no id, so the call looks first. -/
def parseTxids (setTxids : List UInt256) : List UInt256 → Rpc (List UInt256)
  | [] => pure setTxids
  | hash :: rest => do
    require (!setTxids.contains hash) (.jsonRPCError .RPC_INVALID_PARAMETER
      ("Invalid parameter, duplicated txid: " ++ hash.toHex))
    parseTxids (setTxids ++ [hash]) rest

namespace ProofNode

/-- Of the first id, in set order, with an unspent output. -/
def blockOfCoin (node : ProofNode) (setTxids : List UInt256) : Option CBlockIndex :=
  let ordered := setTxids.insertionSort fun a b => ¬ serializeUInt256 b < serializeUInt256 a
  match ordered.findSome? node.accessByTxid with
  | none => none
  | some nHeight => node.tip.bind fun tip => tip.getAncestor nHeight

def proofBlock (node : ProofNode) (setTxids : List UInt256) (blockhash : Option UInt256) :
    Rpc CBlockIndex :=
  match blockhash with
  | some hashBlock =>
    match node.lookupBlockIndex hashBlock with
    | none => .error (.jsonRPCError .RPC_INVALID_ADDRESS_OR_KEY "Block not found")
    | some pblockindex => pure pblockindex
  | none =>
    match node.blockOfCoin setTxids with
    | some pblockindex => pure pblockindex
    | none =>
      let oneTxid := setTxids.getLastD 0
      match node.getTransaction oneTxid with
      | none => .error (.jsonRPCError .RPC_INVALID_ADDRESS_OR_KEY "Transaction not yet in block")
      | some hashBlock =>
        match node.lookupBlockIndex hashBlock with
        | none => .error (.jsonRPCError .RPC_INTERNAL_ERROR "Transaction index corrupt")
        | some pblockindex => pure pblockindex

end ProofNode

namespace NodeEnv

variable (E : NodeEnv)

def merkleBlock (block : CBlock) (txids : List UInt256) : Rpc CMerkleBlock :=
  let vHashes := block.vtx.map E.txid
  match E.partialMerkleTree vHashes (vHashes.map fun hash => txids.contains hash) with
  | .error stop => .error (.stop stop)
  | .ok txn => pure { header := block.header, txn }

/-- `gettxoutproof`, with the parameters parsed; the proof is returned in hex. -/
def gettxoutproof (node : ProofNode) (txids : List UInt256) (blockhash : Option UInt256) :
    Rpc Bytes := do
  let setTxids ← parseTxids [] txids
  let pblockindex ← node.proofBlock setTxids blockhash
  match node.readBlockFromDisk pblockindex with
  | none => .error (.jsonRPCError .RPC_INTERNAL_ERROR "Can't read block from disk")
  | some block => do
    let ntxFound := (block.vtx.filter fun tx => setTxids.contains (E.txid tx)).length
    require (ntxFound == setTxids.length) (.jsonRPCError .RPC_INVALID_ADDRESS_OR_KEY
      "Not all transactions found in specified or retrieved block")
    let mb ← E.merkleBlock block setTxids
    pure mb.serialize

/-- `verifytxoutproof`: the ids that the proof commits to. -/
def verifytxoutproof (node : ProofNode) (proof : Bytes) : Rpc (List UInt256) :=
  match readMerkleBlock.run proof with
  | .error what => .error (.streamFailure what)
  | .ok (merkleBlock, _) => do
    let (root, vMatch, _) := E.extractMatches merkleBlock.txn
    if root ≠ merkleBlock.header.hashMerkleRoot then pure []
    else
      let notFound : Rpc (List UInt256) :=
        .error (.jsonRPCError .RPC_INVALID_ADDRESS_OR_KEY "Block not found in chain")
      match node.lookupBlockIndex (E.blockHash merkleBlock.header) with
      | none => notFound
      | some pindex =>
        if !chainContains node.tip pindex || node.nTx pindex == 0 then notFound
        else if node.nTx pindex = merkleBlock.txn.nTransactions then pure vMatch
        else pure []

end NodeEnv

/-! ### Bits and bytes -/

theorem testBit_bitsToNat (bits : List Bool) (k : Nat) :
    (bitsToNat bits).testBit k = bits.getD k false := by
  induction bits generalizing k with
  | nil => simp [bitsToNat]
  | cons bit rest ih =>
    cases k with
    | zero =>
      rw [bitsToNat, Nat.testBit_zero]
      cases bit <;> simp
    | succ k =>
      have hhalf : (bit.toNat + 2 * bitsToNat rest) / 2 = bitsToNat rest := by
        have := bit.toNat_le
        omega
      rw [bitsToNat, Nat.testBit_succ, hhalf, ih]
      rfl

theorem bitsToNat_lt (bits : List Bool) : bitsToNat bits < 2 ^ bits.length := by
  induction bits with
  | nil => exact Nat.one_pos
  | cons bit rest ih =>
    have := bit.toNat_le
    rw [bitsToNat, length_cons, Nat.pow_succ]
    omega

@[simp] theorem length_packBits : (packBits vBits).length = (vBits.length + 7) / 8 := by
  simp [packBits]

@[simp] theorem length_unpackBits (vBytes : Bytes) :
    (unpackBits vBytes).length = vBytes.length * 8 := by
  simp [unpackBits]

theorem prefix_unpackBits : vBits <+: unpackBits (packBits vBits) := by
  rw [prefix_iff_getElem?]
  intro p hp
  have hbyte : p / 8 < (vBits.length + 7) / 8 := by omega
  have hchunk : bitsToNat ((vBits.drop (p / 8 * 8)).take 8) < 2 ^ 8 :=
    lt_of_lt_of_le (bitsToNat_lt _) (Nat.pow_le_pow_right (by omega) (length_take_le 8 _))
  have hget : (packBits vBits).getD (p / 8) 0 =
      UInt8.ofNat (bitsToNat ((vBits.drop (p / 8 * 8)).take 8)) := by
    rw [packBits, getD_eq_getElem?_getD, getElem?_map, getElem?_range hbyte]
    rfl
  have hsplit : p / 8 * 8 + p % 8 = p := by omega
  rw [unpackBits, getElem?_map,
    getElem?_range (by rw [length_packBits]; omega), Option.map_some, hget,
    toNat_ofNat_of_lt hchunk, testBit_bitsToNat, getD_eq_getElem?_getD,
    getElem?_take_of_lt (by omega), getElem?_drop, hsplit, getElem?_eq_getElem hp]
  rfl

/-! ### Reading a block header and a tree -/

theorem reads_partialMerkleTree (txn : CPartialMerkleTree) (hn : txn.nTransactions < 2 ^ 32)
    (hhashes : txn.vHash.length ≤ MAX_SIZE) (hbits : (packBits txn.vBits).length ≤ MAX_SIZE)
    (hbad : txn.fBad = false) : Reads readPartialMerkleTree txn.serialize
      { txn with vBits := unpackBits (packBits txn.vBits) } := by
  unfold CPartialMerkleTree.serialize serializeVector serializeBytes
  rw [length_map, append_assoc]
  refine reads_bind (reads_number hn) (reads_bind (reads_compactSize hhashes) (reads_bind
    (reads_list fun h _ => reads_uint256 h) (reads_bind (reads_compactSize hbits)
      (reads_bind_pure (reads_block endOfFile _) ?_))))
  rw [← hbad]
  exact reads_pure _

/-! ### The number of transactions of a block -/

def PopContext.EmptyIsSmall (pop : PopContext) : Prop := (pop.encode {}).length < 100

theorem TxWellFormed.weight_ge {tx : CTransaction} (h : TxWellFormed tx) :
    MIN_TRANSACTION_WEIGHT ≤ getTransactionWeight tx := by
  have hin := length_pos_iff.mpr h.vin_ne_nil
  have hout := length_pos_iff.mpr h.vout_ne_nil
  have hstripped := tx.strippedSize_ge
  have htotal := tx.strippedSize_le_totalSize
  simp only [MIN_TRANSACTION_WEIGHT, getTransactionWeight, WITNESS_SCALE_FACTOR]
  omega

namespace NodeEnv

variable {E : NodeEnv} {block : CBlock} {pprev : Option CBlockIndex}

theorem contextualCheckBlock_eq_ok {u : Unit} (h : E.contextualCheckBlock block pprev true = .ok u) :
    E.bodyCommitted block pprev = true ∧ E.getBlockWeight block ≤ MAX_BLOCK_WEIGHT := by
  simp only [contextualCheckBlock, bind_eq_ok, require_eq_ok, exists_const, onlyIf,
    if_true] at h
  obtain ⟨-, _, hroot, -, _, -, _, -, hweight⟩ := h
  exact ⟨E.verifyTopLevelMerkleRoot_eq_ok.mp hroot, of_decide_eq_true hweight⟩

theorem popData_of_checkBlockRules {u : Unit} (h : E.checkBlockRules block true = .ok u)
    (hbit : block.header.hasPopBit = false) : block.popData = {} := by
  simp only [checkBlockRules, checkPopData, bind_eq_ok, require_eq_ok, exists_const, hbit] at h
  obtain ⟨_, -, _, ⟨-, hempty, -⟩, -⟩ := h
  simp only [Bool.not_false, Bool.true_and, Bool.not_not] at hempty
  exact PopData.isEmpty_iff.mp hempty

theorem length_vtx_le (hlib : E.pop.EmptyIsSmall) (hcheck : E.checkBlockRules block true = .ok ())
    (hweight : E.getBlockWeight block ≤ MAX_BLOCK_WEIGHT) :
    block.vtx.length ≤ MAX_BLOCK_WEIGHT / MIN_TRANSACTION_WEIGHT := by
  have hwell := E.checkBlockRules_eq_ok hcheck
  have hsum := card_nsmul_le_sum (block.vtx.map getTransactionWeight) MIN_TRANSACTION_WEIGHT
    (by
      intro weight hmem
      obtain ⟨tx, htx, rfl⟩ := mem_map.mp hmem
      exact (hwell.txs tx htx).weight_ge)
  rw [length_map, smul_eq_mul] at hsum
  have hsize := one_le_sizeOfCompactSize block.vtx.length
  rw [getBlockWeight_eq] at hweight
  have hlost : (if block.header.hasPopBit then 0 else (E.getPopDataWeight block.popData : Int)) <
      404 := by
    split
    · omega
    · next hbit =>
      rw [popData_of_checkBlockRules hcheck (by simpa using hbit)]
      unfold PopContext.EmptyIsSmall at hlib
      simp only [getPopDataWeight, serializeBytes, length_append, writeCompactSize_length,
        sizeOfCompactSize, WITNESS_SCALE_FACTOR]
      rw [if_pos (by omega)]
      omega
  simp only [MIN_TRANSACTION_WEIGHT, MAX_BLOCK_WEIGHT, WITNESS_SCALE_FACTOR] at *
  omega

/-! ### The proof -/

theorem parseTxids_eq_ok {seen txids : List UInt256} (h : (seen ++ txids).Nodup) :
    parseTxids seen txids = .ok (seen ++ txids) := by
  induction txids generalizing seen with
  | nil =>
    rw [append_nil]
    rfl
  | cons hash rest ih =>
    have hnot : seen.contains hash = false := by
      rw [← Bool.not_eq_true, contains_iff_mem]
      intro hmem
      exact disjoint_of_nodup_append h hmem mem_cons_self
    rw [parseTxids, hnot, Bool.not_false, require_true, ok_bind, ih]
    · rw [append_assoc]
      rfl
    · rwa [append_assoc]

theorem map_filter_range {α : Type} (l : List α) (f : α → Bool) (default : α) :
    ((List.range l.length).filter fun p => (l.map f).getD p false).map (fun p => l.getD p default) =
      l.filter f := by
  induction l with
  | nil => rfl
  | cons a rest ih =>
    rw [length_cons, range_succ_eq_map]
    simp only [map_cons, filter_cons, getD_cons_zero, filter_map]
    have htail : (List.filter (fun p => (rest.map f).getD p false) (List.range rest.length)).map
        (fun p => rest.getD p default) = rest.filter f := ih
    cases f a with
    | true =>
      simp only [if_true, map_cons, getD_cons_zero, map_map]
      rw [← htail]
      rfl
    | false =>
      simp only [Bool.false_eq_true, if_false, map_map]
      rw [← htail]
      rfl

theorem found_perm {ids txids : List UInt256} (hnodup : txids.Nodup)
    (h : ∀ id ∈ txids, ids.count id = 1) :
    (ids.filter fun hash => txids.contains hash).Perm txids := by
  rw [perm_iff_count]
  intro id
  by_cases hmem : id ∈ txids
  · have hcontains : txids.contains id = true := contains_iff_mem.mpr hmem
    rw [count_filter hcontains, h id hmem, count_eq_one_of_mem hnodup hmem]
  · rw [count_eq_zero_of_not_mem hmem, count_eq_zero]
    intro hfiltered
    exact hmem (contains_iff_mem.mp (mem_filter.mp hfiltered).2)

theorem found_iff {ids txids : List UInt256} (hnodup : txids.Nodup) (hsub : txids ⊆ ids) :
    (ids.filter fun hash => txids.contains hash).length = txids.length ↔
      ∀ id ∈ txids, ids.count id = 1 := by
  constructor
  · intro hlength id hmem
    have hsubset : txids ⊆ ids.filter fun hash => txids.contains hash := by
      intro hash hhash
      exact mem_filter.mpr ⟨hsub hhash, contains_iff_mem.mpr hhash⟩
    have hperm := (subperm_of_subset hnodup hsubset).perm_of_length_le hlength.le
    have hcontains : txids.contains id = true := contains_iff_mem.mpr hmem
    have hcount := hperm.count_eq id
    rw [count_filter hcontains, count_eq_one_of_mem hnodup hmem] at hcount
    exact hcount.symm
  · intro h
    exact (found_perm hnodup h).length_eq

theorem length_tree_le {vTxid : List UInt256} {vMatch : List Bool} (hne : vTxid ≠ [])
    (hcount : vTxid.length ≤ MAX_BLOCK_WEIGHT / MIN_TRANSACTION_WEIGHT) :
    (E.traverseAndBuild vTxid.length vTxid vMatch (treeHeight vTxid.length) 0).2.length ≤ 16666 ∧
    (E.traverseAndBuild vTxid.length vTxid vMatch (treeHeight vTxid.length) 0).1.length ≤
      16 * 16666 := by
  have hmax : MAX_BLOCK_WEIGHT / MIN_TRANSACTION_WEIGHT = 16666 := rfl
  obtain ⟨hone, -⟩ := width_treeHeight vTxid.length
  have hroot : 0 < RowTree.width vTxid.length (treeHeight vTxid.length) := by
    rw [RowTree.width_eq_one (length_pos_iff.mpr hne) hone]
    omega
  have hheight : treeHeight vTxid.length ≤ 15 := treeHeight_le (by omega)
  obtain ⟨hhashes, -, hbits⟩ := @length_traverseAndBuild E vTxid vMatch vTxid.length _ 0 hroot
  rw [RowTree.leavesBelow_root hone, length_range] at hhashes hbits
  refine ⟨by omega, hbits.trans ?_⟩
  exact Nat.mul_le_mul (by omega) (by omega)

theorem reads_builtTree (E : NodeEnv) {vTxid : List UInt256} (vMatch : List Bool) (hne : vTxid ≠ [])
    (hcount : vTxid.length ≤ MAX_BLOCK_WEIGHT / MIN_TRANSACTION_WEIGHT) :
    ∃ txn, E.partialMerkleTree vTxid vMatch = .ok txn ∧ ∃ tree,
      Reads readPartialMerkleTree txn.serialize tree ∧ BuiltTree E vTxid vMatch tree := by
  have hmax : MAX_BLOCK_WEIGHT / MIN_TRANSACTION_WEIGHT = 16666 := rfl
  obtain ⟨hhashes, hbits⟩ := @length_tree_le E vTxid vMatch hne hcount
  have hmod : vTxid.length % 2 ^ 32 = vTxid.length := Nat.mod_eq_of_lt (by omega)
  have hempty : vTxid.isEmpty = false := by simpa using hne
  unfold partialMerkleTree
  simp only [hmod, hempty, Bool.not_false, require_true, ok_bind]
  generalize hbuilt : E.traverseAndBuild vTxid.length vTxid vMatch (treeHeight vTxid.length) 0 =
    built at *
  have hread := reads_partialMerkleTree ⟨vTxid.length, built.1, built.2, false⟩
    (by dsimp only; omega) (by unfold MAX_SIZE; dsimp only; omega)
    (by rw [length_packBits]; unfold MAX_SIZE; dsimp only; omega) rfl
  refine ⟨_, rfl, _, hread, rfl, rfl, ?_, ?_, ?_⟩
  · rw [hbuilt]
  · rw [hbuilt]
    exact prefix_unpackBits built.1
  · rw [hbuilt]
    simp only [length_unpackBits, length_packBits]
    omega

theorem reads_merkleBlock (E : NodeEnv) (txids : List UInt256) (hne : block.vtx ≠ [])
    (hcount : block.vtx.length ≤ MAX_BLOCK_WEIGHT / MIN_TRANSACTION_WEIGHT) :
    ∃ mb, E.merkleBlock block txids = .ok mb ∧ ∃ tree,
      readMerkleBlock.run mb.serialize = .ok (⟨block.header, tree⟩, []) ∧
      BuiltTree E (block.vtx.map E.txid)
        ((block.vtx.map E.txid).map fun hash => txids.contains hash) tree := by
  have hids : block.vtx.map E.txid ≠ [] := by simpa using hne
  obtain ⟨txn, htxn, tree, hread, hbuilt⟩ := reads_builtTree E
    ((block.vtx.map E.txid).map fun hash => txids.contains hash) hids (by rwa [length_map])
  refine ⟨⟨block.header, txn⟩, ?_, tree, ?_, hbuilt⟩
  · unfold merkleBlock
    dsimp only
    rw [htxn]
    rfl
  · have hblock : Reads readMerkleBlock (CMerkleBlock.serialize ⟨block.header, txn⟩)
        ⟨block.header, tree⟩ :=
      reads_bind (reads_blockHeader block.header) (reads_bind_pure hread (reads_pure _))
    have hrun := hblock []
    rwa [append_nil] at hrun

/-! ### The two calls -/

variable {node : ProofNode} {txids : List UInt256} {blockhash : Option UInt256}
  {pindex : CBlockIndex}

theorem gettxoutproof_eq_ok {mb : CMerkleBlock} {proof : Bytes} (hnodup : txids.Nodup)
    (hsub : txids ⊆ block.vtx.map E.txid) (hfound : node.proofBlock txids blockhash = .ok pindex)
    (hdisk : node.readBlockFromDisk pindex = some block)
    (hmb : E.merkleBlock block txids = .ok mb) :
    E.gettxoutproof node txids blockhash = .ok proof ↔
      (∀ id ∈ txids, (block.vtx.map E.txid).count id = 1) ∧ mb.serialize = proof := by
  have hparse : parseTxids [] txids = .ok txids := @parseTxids_eq_ok [] txids hnodup
  have hlength : (block.vtx.filter fun tx => txids.contains (E.txid tx)).length =
      ((block.vtx.map E.txid).filter fun hash => txids.contains hash).length := by
    rw [filter_map, length_map]
    rfl
  unfold gettxoutproof
  simp only [hparse, ok_bind, hfound, hdisk, hmb, bind_eq_ok, require_eq_ok, exists_const,
    pure_eq_ok_iff, beq_iff_eq, hlength, found_iff hnodup hsub]

theorem verifytxoutproof_eq {mb : CMerkleBlock} {tree : CPartialMerkleTree} (hvtx : block.vtx ≠ [])
    (hcount : block.vtx.length ≤ MAX_BLOCK_WEIGHT / MIN_TRANSACTION_WEIGHT)
    (hmutated : (E.blockMerkleRoot block).2 = false)
    (hread : readMerkleBlock.run mb.serialize = .ok (⟨block.header, tree⟩, []))
    (hbuilt : BuiltTree E (block.vtx.map E.txid)
      ((block.vtx.map E.txid).map fun hash => txids.contains hash) tree)
    (hindex : node.lookupBlockIndex (E.blockHash block.header) = some pindex)
    (hactive : chainContains node.tip pindex = true) (hnTx : node.nTx pindex = block.vtx.length) :
    E.verifytxoutproof node mb.serialize =
      .ok (if (E.blockMerkleRoot block).1 = block.header.hashMerkleRoot then
        (block.vtx.map E.txid).filter fun hash => txids.contains hash else []) := by
  have hids : block.vtx.map E.txid ≠ [] := by simpa using hvtx
  have hextract := extractMatches_built hbuilt hids (by rwa [length_map])
    fun _ hk => noTwins_row hmutated hk
  rw [map_filter_range] at hextract
  have htree : tree.nTransactions = block.vtx.length :=
    hbuilt.nTransactions.trans (length_map _)
  have hpositive : (block.vtx.length == 0) = false := by simpa using hvtx
  unfold verifytxoutproof
  rw [hread]
  dsimp only
  rw [hextract]
  dsimp only
  rw [ite_not, ← blockMerkleRoot]
  split
  · simp only [hindex, hactive, hnTx, htree, hpositive, Bool.not_true, Bool.or_self,
      Bool.false_eq_true, if_false, if_true]
    rfl
  · rfl

theorem blockMerkleRoot_committed_iff (hcommitted : E.bodyCommitted block pindex.pprev = true) :
    (E.blockMerkleRoot block).1 = block.header.hashMerkleRoot ↔
      E.isPopActive pindex.nHeight = false ∨
        E.pop.calculateTopLevelMerkleRoot (E.blockMerkleRoot block).1 block.popData
            ((pindex.pprev.map CBlockIndex.getBlockHash).filter E.pop.knowsBlock) =
          (E.blockMerkleRoot block).1 := by
  have hheight : heightAfter pindex.pprev = pindex.nHeight := by
    cases hp : pindex.pprev with
    | none =>
      rw [CBlockIndex.nHeight, CBlockIndex.pprev_eq_none.mp hp]
      rfl
    | some p => exact (CBlockIndex.nHeight_pprev hp).symm
  rw [bodyCommitted, Bool.and_eq_true, beq_iff_eq] at hcommitted
  rw [hcommitted.1]
  simp only [topLevelMerkleRoot, hheight]
  cases hactive : E.isPopActive pindex.nHeight with
  | false => simp
  | true => simp [eq_comm]

theorem topLevelMerkleRoot_mutated (pprev : Option CBlockIndex) :
    (E.topLevelMerkleRoot pprev block).2 = (E.blockMerkleRoot block).2 := by
  unfold topLevelMerkleRoot
  dsimp only
  split <;> rfl

/-- **Just when the header holds the root of the transactions**: before PoP is active, or by chance.
    -/
theorem txoutproof_verifies_iff (E : NodeEnv) (node : ProofNode) (block : CBlock)
    (pindex : CBlockIndex) (txids : List UInt256) (blockhash : Option UInt256)
    (hlib : E.pop.EmptyIsSmall) (hcheck : E.checkBlockRules block true = .ok ())
    (hcontext : E.contextualCheckBlock block pindex.pprev true = .ok ())
    (hne : txids ≠ []) (hnodup : txids.Nodup) (hsub : txids ⊆ block.vtx.map E.txid)
    (hfound : node.proofBlock txids blockhash = .ok pindex)
    (hdisk : node.readBlockFromDisk pindex = some block)
    (hindex : node.lookupBlockIndex (E.blockHash block.header) = some pindex)
    (hactive : chainContains node.tip pindex = true) (hnTx : node.nTx pindex = block.vtx.length) :
    (∃ proof ids, E.gettxoutproof node txids blockhash = .ok proof ∧
      E.verifytxoutproof node proof = .ok ids ∧ ids.Perm txids) ↔
    (∀ id ∈ txids, (block.vtx.map E.txid).count id = 1) ∧
      (E.isPopActive pindex.nHeight = false ∨
        E.pop.calculateTopLevelMerkleRoot (E.blockMerkleRoot block).1 block.popData
            ((pindex.pprev.map CBlockIndex.getBlockHash).filter E.pop.knowsBlock) =
          (E.blockMerkleRoot block).1) := by
  obtain ⟨hcommitted, hweight⟩ := contextualCheckBlock_eq_ok hcontext
  have hcount := length_vtx_le hlib hcheck hweight
  have hvtx : block.vtx ≠ [] := by
    obtain ⟨tx, rest, hvtx, -⟩ := (E.checkBlockRules_eq_ok hcheck).coinbase
    rw [hvtx]
    exact cons_ne_nil tx rest
  have hmutated : (E.blockMerkleRoot block).2 = false := by
    rw [bodyCommitted, Bool.and_eq_true, Bool.not_eq_true', topLevelMerkleRoot_mutated] at hcommitted
    exact hcommitted.2
  obtain ⟨mb, hmb, tree, hread, hbuilt⟩ := reads_merkleBlock E txids hvtx hcount
  have hverify := verifytxoutproof_eq hvtx hcount hmutated hread hbuilt hindex hactive hnTx
  rw [← blockMerkleRoot_committed_iff hcommitted]
  simp only [gettxoutproof_eq_ok hnodup hsub hfound hdisk hmb]
  constructor
  · rintro ⟨proof, ids, ⟨hcounts, rfl⟩, hids, hperm⟩
    rw [hverify] at hids
    cases hids
    refine ⟨hcounts, ?_⟩
    by_contra hroot
    rw [if_neg hroot] at hperm
    exact hne hperm.nil_eq.symm
  · rintro ⟨hcounts, hroot⟩
    refine ⟨mb.serialize, _, ⟨hcounts, rfl⟩, hverify, ?_⟩
    rw [if_pos hroot]
    exact found_perm hnodup hcounts

end NodeEnv

namespace Regtest

/-- A node that knows one block, which is on its active chain. -/
def proofNode (pindex : CBlockIndex) (block : CBlock) : ProofNode where
  lookupBlockIndex hash := if hash = env.blockHash block.header then some pindex else none
  tip := some pindex
  nTx _ := block.vtx.length
  accessByTxid _ := none
  getTransaction _ := none
  readBlockFromDisk _ := some block

def provenBlock : CBlock := blockOn [genesis] [filler]

def provenIndex : CBlockIndex := env.blockIndex provenBlock [genesis]

/-- The proof for the coinbase of the first block verifies. -/
theorem firstBlock_proven :
    ∃ proof ids, env.gettxoutproof (proofNode provenIndex provenBlock) [env.txid filler]
        (some (env.blockHash provenBlock.header)) = .ok proof ∧
      env.verifytxoutproof (proofNode provenIndex provenBlock) proof = .ok ids ∧
      ids.Perm [env.txid filler] := by
  have hknown : (proofNode provenIndex provenBlock).lookupBlockIndex
      (env.blockHash provenBlock.header) = some provenIndex := by
    simp only [proofNode, if_true]
  refine (env.txoutproof_verifies_iff (proofNode provenIndex provenBlock) provenBlock provenIndex
    [env.txid filler] (some (env.blockHash provenBlock.header)) ?_ ?_ ?_ (cons_ne_nil _ _)
    (nodup_singleton _) (List.Subset.refl _) ?_ rfl hknown
    (chainContains_some.mpr (le_refl _)) rfl).mpr ⟨?_, Or.inl ?_⟩
  · unfold PopContext.EmptyIsSmall
    decide
  · decide +kernel
  · decide +kernel
  · rw [ProofNode.proofBlock, hknown]
    rfl
  · intro id hid
    rw [mem_singleton.mp hid]
    exact count_singleton_self
  · decide +kernel

/-- Where PoP becomes active, over blocks not looked at. -/
def popBlockIndex : CBlockIndex := ⟨⟨1, 0⟩, List.replicate 200 ⟨2, 0⟩⟩

def popBlock : CBlock :=
  let body : CBlock := { provenBlock with
    vtx := [{ filler with vin := [{ prevout := COutPoint.null, scriptSig := pushInt 200,
                                    nSequence := 0xffffffff }] }] }
  { body with header := { body.header with
    hashMerkleRoot := (env.topLevelMerkleRoot popBlockIndex.pprev body).1 } }

/-- After activation the proof is produced, and the verifier returns nothing. -/
theorem popBlock_unproven :
    accepted (env.checkBlockRules popBlock true) = true ∧
      accepted (env.contextualCheckBlock popBlock popBlockIndex.pprev true) = true ∧
      (do
        let proof ← env.gettxoutproof (proofNode popBlockIndex popBlock) (popBlock.vtx.map env.txid)
          (some (env.blockHash popBlock.header))
        env.verifytxoutproof (proofNode popBlockIndex popBlock) proof) = .ok [] := by
  refine ⟨?_, ?_, ?_⟩ <;> decide +kernel

end Regtest

end VBitcoin
