import VBitcoin.CompactBlock

/-!
**Compact block relay** (`net_processing.cpp`, CMPCTBLOCK and GETBLOCKTXN) — the receiver asks
for the slots that its pools did not fill, and the sender answers.  With different short ids
for different transactions the block is reconstructed; slot numbers are `uint16_t`s, so it
must not have more than 65536 transactions.
-/

namespace VBitcoin

open List

/-! ### The request and the answer -/

def PartiallyDownloadedBlock.isTxAvailable (partialBlock : PartiallyDownloadedBlock)
    (index : Nat) : Run Bool := do
  require (!partialBlock.header.isNull) (.assertion "!header.IsNull()")
  require (index < partialBlock.txn_available.length)
    (.assertion "index < txn_available.size()")
  pure (partialBlock.txn_available.getD index none).isSome

/-- Fills `req.indexes`, a `std::vector<uint16_t>`, from `i` on. -/
def requestIndexes (partialBlock : PartiallyDownloadedBlock) : Nat → Nat → Run (List Nat)
  | 0, _ => pure []
  | count + 1, i => do
    let available ← partialBlock.isTxAvailable i
    let rest ← requestIndexes partialBlock count (i + 1)
    pure (if available then rest else i % 2 ^ 16 :: rest)

/-- No answer to an index that is out of bounds. -/
def sendBlockTransactions (block : CBlock) (indexes : List Nat) : Option (List CTransaction) :=
  indexes.mapM fun index => block.vtx[index]?

namespace NodeEnv

variable (E : NodeEnv) (lib : ShortIdLib)

theorem requestIndexes_answered {partialBlock : PartiallyDownloadedBlock} {block : CBlock}
    (hheader : partialBlock.header.isNull = false) (hcount : block.vtx.length ≤ 2 ^ 16) :
    ∀ {slots : Slots} {vtx : List CTransaction} {before : Slots} {earlier : List CTransaction},
      Fits slots vtx → before.length = earlier.length →
      partialBlock.txn_available = before ++ slots → block.vtx = earlier ++ vtx →
      ∃ indexes, requestIndexes partialBlock slots.length before.length = .ok indexes ∧
        sendBlockTransactions block indexes = some (missingFrom slots vtx)
  | [], [], _, _, .nil, _, _, _ => ⟨[], rfl, rfl⟩
  | slot :: slots, tx :: vtx, before, earlier, .cons hslot hfits, hlength, hslots, hvtx => by
    -- the rest of the slots, after this one
    have hlater : (before ++ [slot]).length = (earlier ++ [tx]).length := by simp [hlength]
    obtain ⟨indexes, hrequest, hanswer⟩ := requestIndexes_answered hheader hcount hfits hlater
      (by simp [hslots]) (by simp [hvtx])
    have hget : partialBlock.txn_available.getD before.length none = slot := by
      rw [hslots]
      simp
    have htx : block.vtx[before.length]? = some tx := by
      rw [hvtx, hlength]
      simp
    have hfew : before.length < 2 ^ 16 := by
      rw [hvtx, length_append, length_cons] at hcount
      omega
    have havailable : partialBlock.isTxAvailable before.length = .ok slot.isSome := by
      have hindex : before.length < partialBlock.txn_available.length := by
        rw [hslots, length_append, length_cons]
        omega
      simp only [PartiallyDownloadedBlock.isTxAvailable, hheader, hget, hindex, decide_true,
        Bool.not_false, require, if_true, ok_bind]
      rfl
    rw [length_append, length_singleton] at hrequest
    simp only [length_cons, requestIndexes, havailable, ok_bind, hrequest]
    rcases hslot with rfl | rfl
    · refine ⟨before.length % 2 ^ 16 :: indexes, rfl, ?_⟩
      have hrest : indexes.mapM (fun index => block.vtx[index]?) =
          some (missingFrom slots vtx) := hanswer
      rw [sendBlockTransactions, Nat.mod_eq_of_lt hfew, mapM_cons, htx, hrest]
      rfl
    · exact ⟨indexes, rfl, hanswer⟩

/-! ### InitData succeeds -/

theorem mapShortIds_eq_some {lib : ShortIdLib} {slots : Slots} :
    ∀ {ids : List UInt64} {i index_offset : Nat} {seen : List UInt64} {m : ShortIdMap},
      (∀ n, lib.bucketSize (seen ++ ids.take n) ≤ 12) → ids.Nodup →
      (∀ entry ∈ m, entry.1 ∉ ids) →
      ∃ m', mapShortIds lib slots i index_offset seen ids m = some m' ∧
        m'.length = m.length + ids.length
  | [], _, _, _, m, _, _, _ => ⟨m, rfl, rfl⟩
  | id :: rest, i, index_offset, seen, m, hbucket, hnodup, hnew => by
    have hone : ¬ 12 < lib.bucketSize (seen ++ [id]) := Nat.not_lt.mpr (hbucket 1)
    have hfresh : m.filter (fun entry => entry.1 != id) = m := by
      apply filter_eq_self.mpr
      intro entry hentry
      have hne : entry.1 ≠ id := fun heq => hnew entry hentry (heq ▸ mem_cons_self)
      simpa using hne
    rw [mapShortIds, if_neg hone]
    generalize index_offset + countFilled (slots.drop (i + index_offset)) = offset
    have hbuckets : ∀ n, lib.bucketSize ((seen ++ [id]) ++ rest.take n) ≤ 12 :=
      fun n => by simpa using hbucket (n + 1)
    have hinserted : ∀ entry ∈ m.insert id ((i + offset) % 2 ^ 16), entry.1 ∉ rest := by
      intro entry hentry
      rcases mem_cons.mp hentry with rfl | hentry
      · exact (nodup_cons.mp hnodup).1
      · exact fun hrest => hnew entry (mem_of_mem_filter hentry)
          (mem_cons_of_mem id hrest)
    obtain ⟨m', hm', hlength⟩ := mapShortIds_eq_some hbuckets hnodup.of_cons hinserted
    refine ⟨m', hm', ?_⟩
    rw [hlength, ShortIdMap.insert, hfresh, length_cons, length_cons]
    omega

theorem mapShortIds_distinct {lib : ShortIdLib} (slots : Slots) {ids : List UInt64}
    (hbucket : ∀ n, lib.bucketSize (ids.take n) ≤ 12) (hids : ids.Nodup) :
    ∃ m, mapShortIds lib slots 0 0 [] ids [] = some m ∧ m.length = ids.length := by
  obtain ⟨m, hmap, hlength⟩ : ∃ m, mapShortIds lib slots 0 0 [] ids [] = some m ∧
      m.length = ([] : ShortIdMap).length + ids.length :=
    mapShortIds_eq_some hbucket hids fun _ hentry => absurd hentry not_mem_nil
  rw [length_nil, Nat.zero_add] at hlength
  exact ⟨m, hmap, hlength⟩

variable {E lib}

theorem placePrefilled_coinbase {coinbase : CTransaction} (h : coinbase.isNull = false) (n : Nat) :
    placePrefilled n 0 0 [⟨0, coinbase⟩] (List.replicate (n + 1) none) =
      (.READ_STATUS_OK, some coinbase :: List.replicate n none) := by
  simp [placePrefilled, h, replicate_succ]

variable {cmpctblock : CBlockHeaderAndShortTxIDs}

theorem initData_succeeds {slots : Slots}
    {shorttxids : ShortIdMap} (hheader : cmpctblock.header.isNull = false)
    (hfirst : cmpctblock.prefilledtxn ≠ [])
    (hmany : cmpctblock.blockTxCount ≤ MAX_BLOCK_WEIGHT / MIN_SERIALIZABLE_TRANSACTION_WEIGHT)
    (hplaced : placePrefilled cmpctblock.shorttxids.length 0 0 cmpctblock.prefilledtxn
      (List.replicate cmpctblock.blockTxCount none) = (.READ_STATUS_OK, slots))
    (hmap : mapShortIds lib slots 0 0 [] cmpctblock.shorttxids [] = some shorttxids)
    (hlength : shorttxids.length = cmpctblock.shorttxids.length)
    (vTxHashes extra_txn : List (UInt256 × CTransaction)) :
    ∃ partialBlock, E.initData lib {} cmpctblock vTxHashes extra_txn =
      .ok (.READ_STATUS_OK, partialBlock) := by
  have hnot : ¬ (cmpctblock.header.isNull ||
      (cmpctblock.shorttxids.isEmpty && cmpctblock.prefilledtxn.isEmpty)) = true := by
    simp [hheader, hfirst]
  simp only [initData, if_neg hnot, if_neg (Nat.not_lt.mpr hmany), hplaced, hmap, hlength,
    bne_self_eq_false, Bool.false_eq_true, if_false]
  exact ⟨_, rfl⟩

/-- **`InitData` takes the message for a block**, unless a bucket is overfull. -/
theorem initData_compactBlock {nonce : UInt64} {block : CBlock} {fUseWTXID : Bool}
    (hcmpct : E.compactBlock lib nonce block fUseWTXID = some cmpctblock)
    (hheader : block.header.isNull = false)
    (hcoinbase : block.vtx.head?.any CTransaction.isCoinBase = true)
    (hcount : block.vtx.length ≤ 2 ^ 16) (hids : cmpctblock.shorttxids.Nodup)
    (hbucket : ∀ n, lib.bucketSize (cmpctblock.shorttxids.take n) ≤ 12)
    (vTxHashes extra_txn : List (UInt256 × CTransaction)) :
    ∃ partialBlock, E.initData lib {} cmpctblock vTxHashes extra_txn =
      .ok (.READ_STATUS_OK, partialBlock) := by
  unfold compactBlock at hcmpct
  split at hcmpct
  · cases hcmpct
  rename_i coinbase others hvtx
  cases hcmpct
  rw [hvtx] at hcoinbase hcount
  have hnull : coinbase.isNull = false := by
    have hone : coinbase.isCoinBase = true := by simpa using hcoinbase
    cases hvin : coinbase.vin with
    | nil => simp [CTransaction.isCoinBase, hvin] at hone
    | cons _ _ => simp [CTransaction.isNull, hvin]
  obtain ⟨m, hmap, hlength⟩ := mapShortIds_distinct
    (some coinbase :: List.replicate others.length none) hbucket hids
  refine initData_succeeds hheader (cons_ne_nil _ _) ?_ ?_ hmap hlength vTxHashes extra_txn
  · have hlimit : MAX_BLOCK_WEIGHT / MIN_SERIALIZABLE_TRANSACTION_WEIGHT = 100000 := rfl
    rw [length_cons] at hcount
    rw [CBlockHeaderAndShortTxIDs.blockTxCount, length_map, length_singleton]
    omega
  · rw [CBlockHeaderAndShortTxIDs.blockTxCount, length_map]
    exact placePrefilled_coinbase hnull others.length

/-! ### The whole exchange -/

variable (E lib)

/-- Different short ids for different transactions, of the block and of the pools. -/
structure ShortIdsInjective (nonce : UInt64) (block : CBlock) (fUseWTXID : Bool)
    (pools : List (UInt256 × CTransaction)) : Prop where
  own : (block.vtx.tail.map fun tx =>
    CBlockHeaderAndShortTxIDs.getShortID lib block.header nonce (E.relayHash fUseWTXID tx)).Nodup
  pools : ∀ entry ∈ pools, ∀ tx ∈ block.vtx.tail,
    CBlockHeaderAndShortTxIDs.getShortID lib block.header nonce entry.1 =
      CBlockHeaderAndShortTxIDs.getShortID lib block.header nonce (E.relayHash fUseWTXID tx) →
    entry.2 = tx

/-- **Relay reconstructs the block**: `InitData` succeeds, the request is answered, and `FillBlock`
    hands out the block, as good if it passes `CheckBlock`. -/
theorem compact_relay_reconstructs {nonce : UInt64} {block : CBlock} {fUseWTXID : Bool}
    {cmpctblock : CBlockHeaderAndShortTxIDs} {vTxHashes extra_txn : List (UInt256 × CTransaction)}
    (hcmpct : E.compactBlock lib nonce block fUseWTXID = some cmpctblock)
    (hheader : block.header.isNull = false)
    (hcoinbase : block.vtx.head?.any CTransaction.isCoinBase = true)
    (hcount : block.vtx.length ≤ 2 ^ 16)
    (hids : E.ShortIdsInjective lib nonce block fUseWTXID (vTxHashes ++ extra_txn))
    (hbucket : ∀ n, lib.bucketSize (cmpctblock.shorttxids.take n) ≤ 12) :
    ∃ partialBlock indexes vtx_missing status fChecked,
      E.initData lib {} cmpctblock vTxHashes extra_txn = .ok (.READ_STATUS_OK, partialBlock) ∧
      requestIndexes partialBlock cmpctblock.blockTxCount 0 = .ok indexes ∧
      sendBlockTransactions block indexes = some vtx_missing ∧
      E.fillBlock partialBlock vtx_missing = .ok (status, some { block with fChecked }) ∧
      (status = .READ_STATUS_OK ↔
        ∃ checked, E.checkBlock { block with fChecked := false } true = .ok checked) := by
  obtain ⟨hshort, htotal⟩ := E.compactBlock_spec lib hcmpct
  have hown : cmpctblock.shorttxids.Nodup := by
    rw [hshort]
    exact hids.own
  obtain ⟨partialBlock, hinit⟩ := initData_compactBlock hcmpct hheader hcoinbase hcount hown
    hbucket vTxHashes extra_txn
  obtain ⟨hsame, hpop, hfits⟩ := E.initData_fits lib hcmpct hcount hids.pools hinit
  rw [← hsame] at hheader
  have hnone : ([] : Slots).length = ([] : List CTransaction).length := rfl
  obtain ⟨indexes, hrequest, hanswer⟩ := requestIndexes_answered hheader hcount hfits hnone
    (nil_append _).symm (nil_append _).symm
  rw [hfits.length_eq] at hrequest
  obtain ⟨status, fChecked, -, hstatus, hfill⟩ :=
    E.fillBlock_of_assembled hheader (assembled_of_fits hsame hpop hfits)
  refine ⟨partialBlock, indexes, _, status, fChecked, hinit, ?_, hanswer, hfill, hstatus⟩
  rw [htotal]
  exact hrequest

end NodeEnv

namespace Regtest

def relayed : CBlock :=
  blockOn [genesis] [coinbase [0x51, 0x00] (50 * COIN), payment 1, payment 2]

def relayedMessage : CBlockHeaderAndShortTxIDs where
  header := relayed.header
  nonce := 7
  shorttxids := [payment 1, payment 2].map fun tx =>
    CBlockHeaderAndShortTxIDs.getShortID shortIdLib relayed.header 7 (env.wtxid tx)
  prefilledtxn := [⟨0, coinbase [0x51, 0x00] (50 * COIN)⟩]
  popData := {}

theorem relayed_reconstructed :
    ∃ partialBlock indexes vtx_missing status fChecked,
      env.initData shortIdLib {} relayedMessage
        [(env.wtxid (payment 1), payment 1)] [] = .ok (.READ_STATUS_OK, partialBlock) ∧
      requestIndexes partialBlock 3 0 = .ok indexes ∧
      sendBlockTransactions relayed indexes = some vtx_missing ∧
      env.fillBlock partialBlock vtx_missing = .ok (status, some { relayed with fChecked }) ∧
      (status = .READ_STATUS_OK ↔
        ∃ checked, env.checkBlock { relayed with fChecked := false } true = .ok checked) := by
  have hmessage : env.compactBlock shortIdLib 7 relayed true = some relayedMessage := by
    decide +kernel
  refine env.compact_relay_reconstructs shortIdLib hmessage (by decide +kernel)
    (by decide +kernel) (by decide +kernel) ⟨by decide +kernel, ?_⟩ fun _ => (by decide : 1 ≤ 12)
  decide +kernel

def targetless : CBlock where
  header := .null
  vtx := [coinbase [0x51, 0x00] (50 * COIN)]

/-- The receiver takes the header of `targetless` for none at all. -/
theorem targetless_refused :
    targetless.vtx.head?.any CTransaction.isCoinBase = true ∧
    env.ShortIdsInjective shortIdLib 7 targetless true [] ∧
    ∃ cmpctblock, env.compactBlock shortIdLib 7 targetless true = some cmpctblock ∧
      env.initData shortIdLib {} cmpctblock [] [] = .ok (.READ_STATUS_INVALID, {}) := by
  refine ⟨rfl, ⟨nodup_nil, fun _ hentry => absurd hentry not_mem_nil⟩, ?_⟩
  exact ⟨_, rfl, rfl⟩

end Regtest

end VBitcoin
