import VBitcoin.Regtest

/-!
**Compact blocks** (`CBlockHeaderAndShortTxIDs` and `PartiallyDownloadedBlock`,
`blockencodings.cpp`) — a header and short ids, and the reconstruction.  A short id is 48 bits
of SipHash, so a slot can get a wrong transaction; `FillBlock` asks for the full block when
`CheckBlock` reports a mutation, and that reports none.
-/

namespace VBitcoin

open List

/-! ### Short ids -/

def UInt256.getUint64 (h : UInt256) (pos : Nat) : UInt64 := UInt64.ofNat (h.toNat / 2 ^ (64 * pos))

def rotl (x b : UInt64) : UInt64 := (x <<< b) ||| (x >>> (64 - b))

structure SipState where
  v0 : UInt64
  v1 : UInt64
  v2 : UInt64
  v3 : UInt64

def SipState.round (v : SipState) : SipState :=
  let v0 := v.v0 + v.v1
  let v1 := rotl v.v1 13 ^^^ v0
  let v0 := rotl v0 32
  let v2 := v.v2 + v.v3
  let v3 := rotl v.v3 16 ^^^ v2
  let v0 := v0 + v3
  let v3 := rotl v3 21 ^^^ v0
  let v2 := v2 + v1
  let v1 := rotl v1 17 ^^^ v2
  let v2 := rotl v2 32
  { v0, v1, v2, v3 }

/-- One message word: two rounds between its additions. -/
def SipState.absorb (v : SipState) (d : UInt64) : SipState :=
  let v := { v with v3 := v.v3 ^^^ d }.round.round
  { v with v0 := v.v0 ^^^ d }

def sipHashUint256 (k0 k1 : UInt64) (val : UInt256) : UInt64 :=
  let v : SipState :=
    { v0 := 0x736f6d6570736575 ^^^ k0, v1 := 0x646f72616e646f6d ^^^ k1,
      v2 := 0x6c7967656e657261 ^^^ k0, v3 := 0x7465646279746573 ^^^ k1 }
  let v := (((v.absorb (val.getUint64 0)).absorb (val.getUint64 1)).absorb
    (val.getUint64 2)).absorb (val.getUint64 3)
  let v := v.absorb ((4 : UInt64) <<< 59)
  let v := { v with v2 := v.v2 ^^^ 0xFF }.round.round.round.round
  v.v0 ^^^ v.v1 ^^^ v.v2 ^^^ v.v3

-- the vector of the node's own hash tests
example : sipHashUint256 0x0706050403020100 0x0F0E0D0C0B0A0908
    0x1f1e1d1c1b1a191817161514131211100f0e0d0c0b0a09080706050403020100 =
      0x7127512f72f27cce := by
  decide +kernel

/-! ### The message and the block under construction -/

/-- A transaction sent along, `index` slots after the one before. -/
structure PrefilledTransaction where
  index : UInt16
  tx : CTransaction
  deriving DecidableEq, Repr

structure CBlockHeaderAndShortTxIDs where
  header : CBlockHeader
  nonce : UInt64
  shorttxids : List UInt64
  prefilledtxn : List PrefilledTransaction
  popData : PopData
  deriving DecidableEq, Repr

inductive ReadStatus where
  | READ_STATUS_OK
  | READ_STATUS_INVALID
  | READ_STATUS_FAILED
  | READ_STATUS_CHECKBLOCK_FAILED
  deriving DecidableEq, Repr

def CBlockHeader.null : CBlockHeader :=
  { nVersion := 0, hashPrevBlock := 0, hashMerkleRoot := 0, nTime := 0, nBits := 0, nNonce := 0 }

def CBlockHeader.isNull (header : CBlockHeader) : Bool := header.nBits == 0

def CTransaction.isNull (tx : CTransaction) : Bool := tx.vin.isEmpty && tx.vout.isEmpty

abbrev Slots := List (Option CTransaction)

structure PartiallyDownloadedBlock where
  header : CBlockHeader := .null
  txn_available : Slots := []
  mempool_count : Nat := 0
  popData : PopData := {}
  deriving DecidableEq, Repr

structure ShortIdLib where
  sha256 : Bytes → UInt256
  /-- The size of the bucket of the last id, in an `unordered_map` of these ids. -/
  bucketSize : List UInt64 → Nat

namespace CBlockHeaderAndShortTxIDs

def getShortID (lib : ShortIdLib) (header : CBlockHeader) (nonce : UInt64) (txhash : UInt256) :
    UInt64 :=
  let shorttxidhash := lib.sha256 (header.serialize ++ leBytes 8 nonce.toNat)
  sipHashUint256 (shorttxidhash.getUint64 0) (shorttxidhash.getUint64 1) txhash &&& 0xffffffffffff

def blockTxCount (cmpctblock : CBlockHeaderAndShortTxIDs) : Nat :=
  cmpctblock.shorttxids.length + cmpctblock.prefilledtxn.length

end CBlockHeaderAndShortTxIDs

/-! ### InitData -/

/-- `next` is `lastprefilledindex + 1`. -/
def placePrefilled (nShort : Nat) :
    Nat → Nat → List PrefilledTransaction → Slots → ReadStatus × Slots
  | _, _, [], slots => (.READ_STATUS_OK, slots)
  | i, next, prefilled :: rest, slots =>
    let lastprefilledindex := next + prefilled.index.toNat
    if prefilled.tx.isNull then (.READ_STATUS_INVALID, slots)
    else if 65535 < lastprefilledindex then (.READ_STATUS_INVALID, slots)
    else if nShort + i < lastprefilledindex then (.READ_STATUS_INVALID, slots)
    else placePrefilled nShort (i + 1) (lastprefilledindex + 1) rest
      (slots.set lastprefilledindex (some prefilled.tx))

abbrev ShortIdMap := List (UInt64 × Nat)

def ShortIdMap.insert (m : ShortIdMap) (id : UInt64) (slot : Nat) : ShortIdMap :=
  (id, slot) :: m.filter fun entry => entry.1 != id

def ShortIdMap.find (m : ShortIdMap) (id : UInt64) : Option Nat :=
  (List.find? (fun entry => entry.1 == id) m).map Prod.snd

/-- The steps of `while (txn_available[..]) index_offset++`. -/
def countFilled : Slots → Nat
  | some _ :: rest => countFilled rest + 1
  | _ => 0

/-- The next empty slot, as a `uint16_t`; `none` is an overfull bucket. -/
def mapShortIds (lib : ShortIdLib) (slots : Slots) :
    Nat → Nat → List UInt64 → List UInt64 → ShortIdMap → Option ShortIdMap
  | _, _, _, [], m => some m
  | i, index_offset, seen, id :: rest, m =>
    let index_offset := index_offset + countFilled (slots.drop (i + index_offset))
    if 12 < lib.bucketSize (seen ++ [id]) then none
    else mapShortIds lib slots (i + 1) index_offset (seen ++ [id]) rest
      (m.insert id ((i + index_offset) % 2 ^ 16))

structure PoolSearch where
  txn_available : Slots
  have_txn : List Bool
  mempool_count : Nat

/-- A second match that `clashes` empties the slot. -/
def PoolSearch.offer (clashes : CTransaction → CTransaction → Bool) (m : ShortIdMap)
    (shortid : UInt64) (tx : CTransaction) (s : PoolSearch) : PoolSearch :=
  match m.find shortid with
  | none => s
  | some slot =>
    if !s.have_txn.getD slot false then
      { txn_available := s.txn_available.set slot (some tx)
        have_txn := s.have_txn.set slot true
        mempool_count := s.mempool_count + 1 }
    else
      match s.txn_available.getD slot none with
      | none => s
      | some present =>
        if clashes present tx then
          { s with
            txn_available := s.txn_available.set slot none
            mempool_count := s.mempool_count - 1 }
        else s

/-- A pool loop, which stops as soon as every short id is found. -/
def searchPool (clashes : CTransaction → CTransaction → Bool) (shortID : UInt256 → UInt64)
    (m : ShortIdMap) : List (UInt256 × CTransaction) → PoolSearch → PoolSearch
  | [], s => s
  | (hash, tx) :: rest, s =>
    let s := s.offer clashes m (shortID hash) tx
    if s.mempool_count == m.length then s else searchPool clashes shortID m rest s

def searchMempool : (UInt256 → UInt64) → ShortIdMap → List (UInt256 × CTransaction) →
    PoolSearch → PoolSearch :=
  searchPool fun _ _ => true

namespace NodeEnv

variable (E : NodeEnv) (lib : ShortIdLib)

/-- A transaction that is in both pools does not clash with itself. -/
def searchExtra : (UInt256 → UInt64) → ShortIdMap → List (UInt256 × CTransaction) →
    PoolSearch → PoolSearch :=
  searchPool fun present tx => E.wtxid present != E.wtxid tx

def initData (partialBlock : PartiallyDownloadedBlock) (cmpctblock : CBlockHeaderAndShortTxIDs)
    (vTxHashes extra_txn : List (UInt256 × CTransaction)) :
    Run (ReadStatus × PartiallyDownloadedBlock) :=
  if cmpctblock.header.isNull ||
      (cmpctblock.shorttxids.isEmpty && cmpctblock.prefilledtxn.isEmpty) then
    pure (.READ_STATUS_INVALID, partialBlock)
  else if MAX_BLOCK_WEIGHT / MIN_SERIALIZABLE_TRANSACTION_WEIGHT < cmpctblock.blockTxCount then
    pure (.READ_STATUS_INVALID, partialBlock)
  else do
    require (partialBlock.header.isNull && partialBlock.txn_available.isEmpty)
      (.assertion "header.IsNull() && txn_available.empty()")
    let (status, txn_available) := placePrefilled cmpctblock.shorttxids.length 0 0
      cmpctblock.prefilledtxn (List.replicate cmpctblock.blockTxCount none)
    let partialBlock := { partialBlock with header := cmpctblock.header, txn_available }
    if status != .READ_STATUS_OK then pure (status, partialBlock)
    else
      match mapShortIds lib txn_available 0 0 [] cmpctblock.shorttxids [] with
      | none => pure (.READ_STATUS_FAILED, partialBlock)
      | some shorttxids =>
        if shorttxids.length != cmpctblock.shorttxids.length then
          pure (.READ_STATUS_FAILED, partialBlock)
        else
          let shortID :=
            CBlockHeaderAndShortTxIDs.getShortID lib cmpctblock.header cmpctblock.nonce
          let found := E.searchExtra shortID shorttxids extra_txn
            (searchMempool shortID shorttxids vTxHashes
              { txn_available
                have_txn := List.replicate txn_available.length false
                mempool_count := partialBlock.mempool_count })
          pure (.READ_STATUS_OK,
            { partialBlock with
              txn_available := found.txn_available
              mempool_count := found.mempool_count
              popData := cmpctblock.popData })

/-! ### FillBlock -/

/-- The transactions, and the answers that are left over. -/
def fillSlots : Slots → List CTransaction → Option (List CTransaction × List CTransaction)
  | [], vtx_missing => some ([], vtx_missing)
  | some tx :: slots, vtx_missing =>
    (fillSlots slots vtx_missing).map fun (vtx, left) => (tx :: vtx, left)
  | none :: _, [] => none
  | none :: slots, tx :: vtx_missing =>
    (fillSlots slots vtx_missing).map fun (vtx, left) => (tx :: vtx, left)

/-- The block that the slots and the peer's answer make, if they fit. -/
def assembled (partialBlock : PartiallyDownloadedBlock) (vtx_missing : List CTransaction) :
    Option CBlock :=
  match fillSlots partialBlock.txn_available vtx_missing with
  | some (vtx, []) => some { header := partialBlock.header, vtx, popData := partialBlock.popData }
  | _ => none

/-- No block when the answer does not fit the slots. -/
def fillBlock (partialBlock : PartiallyDownloadedBlock) (vtx_missing : List CTransaction) :
    Run (ReadStatus × Option CBlock) := do
  require (!partialBlock.header.isNull) (.assertion "!header.IsNull()")
  match assembled partialBlock vtx_missing with
  | none => pure (.READ_STATUS_INVALID, none)
  | some block =>
    match E.checkBlock block true with
    | .ok block => pure (.READ_STATUS_OK, some block)
    | .error (.blockInvalid result _ _) =>
      pure (if result == .BLOCK_MUTATED then .READ_STATUS_FAILED
        else .READ_STATUS_CHECKBLOCK_FAILED, some block)
    | .error stop => .error stop

/-! ### What comes out of the slots -/

variable {lib}

variable {cmpctblock : CBlockHeaderAndShortTxIDs}
  {vTxHashes extra_txn : List (UInt256 × CTransaction)} {partialBlock : PartiallyDownloadedBlock}
  {block : CBlock} {vtx_missing : List CTransaction}

variable {partialBlock' : PartiallyDownloadedBlock} {nonce : UInt64} {fUseWTXID : Bool}
  {vtx : List CTransaction}

theorem initData_spec (h : E.initData lib partialBlock cmpctblock vTxHashes extra_txn =
      .ok (.READ_STATUS_OK, partialBlock')) :
    ∃ (slots : Slots) (shorttxids : ShortIdMap), cmpctblock.header.isNull = false ∧
      placePrefilled cmpctblock.shorttxids.length 0 0 cmpctblock.prefilledtxn
        (List.replicate cmpctblock.blockTxCount none) = (.READ_STATUS_OK, slots) ∧
      mapShortIds lib slots 0 0 [] cmpctblock.shorttxids [] = some shorttxids ∧
      shorttxids.length = cmpctblock.shorttxids.length ∧
      partialBlock' =
        let shortID := CBlockHeaderAndShortTxIDs.getShortID lib cmpctblock.header cmpctblock.nonce
        let found := E.searchExtra shortID shorttxids extra_txn
          (searchMempool shortID shorttxids vTxHashes
            ⟨slots, List.replicate slots.length false, partialBlock.mempool_count⟩)
        { header := cmpctblock.header
          txn_available := found.txn_available
          mempool_count := found.mempool_count
          popData := cmpctblock.popData } := by
  unfold initData at h
  split at h
  · cases h
  rename_i hnull
  simp only [Bool.or_eq_true, not_or, Bool.not_eq_true] at hnull
  split at h
  · cases h
  obtain ⟨_, -, h⟩ := bind_eq_ok.mp h
  rcases hplaced : placePrefilled cmpctblock.shorttxids.length 0 0 cmpctblock.prefilledtxn
    (List.replicate cmpctblock.blockTxCount none) with ⟨status, slots⟩
  simp only [hplaced] at h
  split at h
  · rename_i hstatus
    simp only [pure_eq_ok_iff, Prod.mk.injEq] at h
    exact absurd h.1 (by simpa using hstatus)
  rename_i hstatus
  split at h
  · cases h
  rename_i shorttxids hmap
  split at h
  · cases h
  rename_i hlength
  cases h
  have hok : status = .READ_STATUS_OK := by simpa using hstatus
  exact ⟨slots, shorttxids, hnull.1, by rw [hok], hmap, by simpa using hlength, rfl⟩

theorem initData_header (h : E.initData lib partialBlock cmpctblock vTxHashes extra_txn =
      .ok (.READ_STATUS_OK, partialBlock')) : partialBlock'.header.isNull = false := by
  obtain ⟨_, _, hnull, -, -, -, rfl⟩ := E.initData_spec h
  exact hnull

theorem checkBlock_eq_with {block' : CBlock} {fCheckPOW : Bool}
    (h : E.checkBlock block fCheckPOW = .ok block') :
    ∃ fChecked, block' = { block with fChecked } := by
  unfold checkBlock at h
  split at h
  · cases h
    exact ⟨block.fChecked, rfl⟩
  · obtain ⟨_, -, h⟩ := bind_eq_ok.mp h
    cases h
    exact ⟨_, rfl⟩

/-- The final check finds no mutation. -/
theorem fillBlock_of_assembled (hheader : partialBlock.header.isNull = false)
    (hblock : assembled partialBlock vtx_missing = some block) :
    ∃ status fChecked, status ≠ .READ_STATUS_FAILED ∧
      (status = .READ_STATUS_OK ↔ ∃ checked, E.checkBlock block true = .ok checked) ∧
      E.fillBlock partialBlock vtx_missing = .ok (status, some { block with fChecked }) := by
  have hrequire :
      require (!partialBlock.header.isNull) (Stop.assertion "!header.IsNull()") = .ok () :=
    require_eq_ok.mpr (by simp [hheader])
  simp only [fillBlock, hrequire, ok_bind, hblock]
  cases hcheck : E.checkBlock block true with
  | ok block' =>
    obtain ⟨fChecked, rfl⟩ := E.checkBlock_eq_with hcheck
    exact ⟨.READ_STATUS_OK, fChecked, by decide, ⟨fun _ => ⟨_, rfl⟩, fun _ => rfl⟩, rfl⟩
  | error stop =>
    obtain ⟨result, reason, debug, rfl, hresult⟩ := E.checkBlock_stops block true stop hcheck
    refine ⟨.READ_STATUS_CHECKBLOCK_FAILED, block.fChecked, by decide, ?_, ?_⟩
    · simp
    · simp [hresult, pure, Except.pure]

theorem fillBlock_of_not_assembled (hblock : assembled partialBlock vtx_missing = none)
    {status : ReadStatus} :
    E.fillBlock partialBlock vtx_missing ≠ .ok (status, some block) := by
  intro h
  obtain ⟨_, -, h⟩ := bind_eq_ok.mp h
  simp only [hblock, pure_eq_ok_iff, Prod.mk.injEq] at h
  cases h.2

variable (lib)

/-- The block that a message, the pools and the peer's answer deliver. -/
def delivered (cmpctblock : CBlockHeaderAndShortTxIDs)
    (vTxHashes extra_txn : List (UInt256 × CTransaction)) (vtx_missing : List CTransaction) :
    Option CBlock :=
  match E.initData lib {} cmpctblock vTxHashes extra_txn with
  | .ok (.READ_STATUS_OK, partialBlock) => assembled partialBlock vtx_missing
  | _ => none

/-- Good blocks have the header's root; another root is a failure. -/
def ReconstructionAuthenticated (pindexPrev : Option CBlockIndex)
    (cmpctblock : CBlockHeaderAndShortTxIDs) (vTxHashes extra_txn : List (UInt256 × CTransaction))
    (vtx_missing : List CTransaction) : Prop :=
  ∀ partialBlock,
    E.initData lib {} cmpctblock vTxHashes extra_txn = .ok (.READ_STATUS_OK, partialBlock) →
      ∀ status block, E.fillBlock partialBlock vtx_missing = .ok (status, some block) →
        (status = .READ_STATUS_OK →
          (E.topLevelMerkleRoot pindexPrev block).1 = cmpctblock.header.hashMerkleRoot) ∧
        ((E.topLevelMerkleRoot pindexPrev block).1 ≠ cmpctblock.header.hashMerkleRoot →
          status = .READ_STATUS_FAILED)

theorem delivered_eq_some
    :
    E.delivered lib cmpctblock vTxHashes extra_txn vtx_missing = some block ↔
      ∃ partialBlock,
        E.initData lib {} cmpctblock vTxHashes extra_txn = .ok (.READ_STATUS_OK, partialBlock) ∧
          assembled partialBlock vtx_missing = some block := by
  unfold delivered
  constructor
  · intro h
    split at h
    · rename_i partialBlock hinit
      exact ⟨partialBlock, hinit, h⟩
    · cases h
  · rintro ⟨partialBlock, hinit, hblock⟩
    rw [hinit]
    exact hblock

/-- The hash that short ids are taken of, as the peers agreed. -/
def relayHash (fUseWTXID : Bool) (tx : CTransaction) : UInt256 :=
  if fUseWTXID then E.wtxid tx else E.txid tx

/-- The coinbase is sent along, the others by their short ids. -/
def compactBlock (nonce : UInt64) (block : CBlock) (fUseWTXID : Bool) :
    Option CBlockHeaderAndShortTxIDs :=
  match block.vtx with
  | [] => none
  | coinbase :: others =>
    some {
      header := block.header
      nonce
      shorttxids := others.map fun tx =>
        CBlockHeaderAndShortTxIDs.getShortID lib block.header nonce (E.relayHash fUseWTXID tx)
      prefilledtxn := [⟨0, coinbase⟩]
      popData := block.popData }

theorem compactBlock_spec (h : E.compactBlock lib nonce block fUseWTXID = some cmpctblock) :
    cmpctblock.shorttxids = (block.vtx.tail.map fun tx =>
      CBlockHeaderAndShortTxIDs.getShortID lib block.header nonce (E.relayHash fUseWTXID tx)) ∧
    cmpctblock.blockTxCount = block.vtx.length := by
  unfold compactBlock at h
  split at h
  · cases h
  · rename_i coinbase others hvtx
    cases h
    rw [hvtx]
    exact ⟨rfl, by simp [CBlockHeaderAndShortTxIDs.blockTxCount]⟩

def missingFrom : Slots → List CTransaction → List CTransaction
  | some _ :: slots, _ :: vtx => missingFrom slots vtx
  | none :: slots, tx :: vtx => tx :: missingFrom slots vtx
  | _, _ => []

/-- Every slot is empty or has the block's own transaction. -/
def Fits : Slots → List CTransaction → Prop :=
  List.Forall₂ fun slot tx => slot = none ∨ slot = some tx

theorem fillSlots_of_fits {slots : Slots} (h : Fits slots vtx) :
    fillSlots slots (missingFrom slots vtx) = some (vtx, []) := by
  induction h with
  | nil => rfl
  | cons hslot _ ih =>
    rcases hslot with rfl | rfl
    · simp [fillSlots, missingFrom, ih]
    · simp [fillSlots, missingFrom, ih]

theorem assembled_of_fits
    (hheader : partialBlock.header = block.header) (hpop : partialBlock.popData = block.popData)
    (hfits : Fits partialBlock.txn_available block.vtx) :
    assembled partialBlock (missingFrom partialBlock.txn_available block.vtx) =
      some { block with fChecked := false } := by
  rw [assembled, fillSlots_of_fits hfits, hheader, hpop]

theorem Fits.set {content : Option CTransaction} :
    ∀ {slots : Slots} {vtx : List CTransaction} {slot : Nat}, Fits slots vtx →
      (∀ tx, content = some tx → vtx[slot]? = some tx) → Fits (slots.set slot content) vtx
  | [], [], _, _, _ => .nil
  | _ :: _, tx :: _, 0, .cons _ hrest, hcontent => by
    refine .cons ?_ hrest
    cases content with
    | none => exact .inl rfl
    | some tx' =>
      have hsome := hcontent tx' rfl
      simp only [getElem?_cons_zero, Option.some.injEq] at hsome
      exact .inr (congrArg some hsome.symm)
  | _ :: _, _ :: _, slot + 1, .cons hslot hrest, hcontent => by
    refine .cons hslot (Fits.set hrest fun tx htx => ?_)
    have hsome := hcontent tx htx
    rwa [getElem?_cons_succ] at hsome

theorem fits_offer {clashes : CTransaction → CTransaction → Bool} {m : ShortIdMap}
    {shortid : UInt64} {tx : CTransaction} {s : PoolSearch}
    (hs : Fits s.txn_available vtx) (hmatch : ∀ slot, m.find shortid = some slot →
      vtx[slot]? = some tx) : Fits (s.offer clashes m shortid tx).txn_available vtx := by
  unfold PoolSearch.offer
  split
  · exact hs
  · rename_i slot hfind
    split
    · apply hs.set
      intro tx' htx'
      cases htx'
      exact hmatch slot hfind
    · split
      · exact hs
      · split
        · exact hs.set fun _ h => nomatch h
        · exact hs

theorem fits_searchPool {clashes : CTransaction → CTransaction → Bool}
    {shortID : UInt256 → UInt64} {m : ShortIdMap} {vtx : List CTransaction} :
    ∀ {pool : List (UInt256 × CTransaction)} {s : PoolSearch}, Fits s.txn_available vtx →
      (∀ entry ∈ pool, ∀ slot, m.find (shortID entry.1) = some slot →
        vtx[slot]? = some entry.2) →
      Fits (searchPool clashes shortID m pool s).txn_available vtx
  | [], _, hs, _ => hs
  | (hash, tx) :: rest, s, hs, hmatch => by
    have hstep : Fits (s.offer clashes m (shortID hash) tx).txn_available vtx :=
      fits_offer hs (hmatch (hash, tx) mem_cons_self)
    simp only [searchPool]
    split
    · exact hstep
    · exact fits_searchPool hstep (forall_mem_cons.mp hmatch).2

theorem ShortIdMap.mem_of_find {m : ShortIdMap} {id : UInt64} {slot : Nat}
    (h : m.find id = some slot) : (id, slot) ∈ m := by
  simp only [ShortIdMap.find, Option.map_eq_some_iff] at h
  obtain ⟨entry, hentry, rfl⟩ := h
  have hid : entry.1 = id := by simpa using find?_some hentry
  subst hid
  exact mem_of_find?_eq_some hentry

theorem mem_mapShortIds {lib : ShortIdLib} {coinbase : CTransaction} {n : Nat} :
    ∀ {ids : List UInt64} {i : Nat} {seen : List UInt64} {m m' : ShortIdMap},
      mapShortIds lib (some coinbase :: List.replicate n none) i 1 seen ids m = some m' →
        ∀ entry ∈ m', entry ∈ m ∨ ∃ j, ids[j]? = some entry.1 ∧ entry.2 = (i + j + 1) % 2 ^ 16
  | [], i, seen, m, m', h, entry, hentry => by
    cases h
    exact .inl hentry
  | id :: rest, i, seen, m, m', h, entry, hentry => by
    have hempty : countFilled ((some coinbase :: List.replicate n none).drop (i + 1)) = 0 := by
      rw [drop_succ_cons, drop_replicate]
      cases n - i <;> rfl
    simp only [mapShortIds, hempty, Nat.add_zero] at h
    split at h
    · cases h
    rcases mem_mapShortIds h entry hentry with hmem | ⟨j, hj, hslot⟩
    · rcases mem_cons.mp hmem with rfl | hmem
      · exact .inr ⟨0, rfl, rfl⟩
      · exact .inl (mem_of_mem_filter hmem)
    · exact .inr ⟨j + 1, hj, by rw [hslot, Nat.add_right_comm i 1 j, Nat.add_assoc i]⟩

theorem mapShortIds_skip {lib : ShortIdLib} {coinbase : CTransaction} {n : Nat}
    (ids : List UInt64) (m : ShortIdMap) :
    mapShortIds lib (some coinbase :: List.replicate n none) 0 0 [] ids m =
      mapShortIds lib (some coinbase :: List.replicate n none) 0 1 [] ids m := by
  have hempty : countFilled (List.replicate n (none : Option CTransaction)) = 0 := by
    cases n <;> rfl
  cases ids with
  | nil => rfl
  | cons id rest => simp [mapShortIds, countFilled, hempty]

/-- The slots hold the block's own, unless it is too long or short ids clash. -/
theorem initData_fits (hcmpct : E.compactBlock lib nonce block fUseWTXID = some cmpctblock)
    (hcount : block.vtx.length ≤ 2 ^ 16)
    (hmatch : ∀ entry ∈ vTxHashes ++ extra_txn, ∀ tx ∈ block.vtx.tail,
      CBlockHeaderAndShortTxIDs.getShortID lib block.header nonce entry.1 =
        CBlockHeaderAndShortTxIDs.getShortID lib block.header nonce (E.relayHash fUseWTXID tx) →
      entry.2 = tx) (hinit : E.initData lib {} cmpctblock vTxHashes extra_txn =
      .ok (.READ_STATUS_OK, partialBlock)) :
    partialBlock.header = block.header ∧ partialBlock.popData = block.popData ∧
      Fits partialBlock.txn_available block.vtx := by
  obtain ⟨slots, m, -, hplaced, hmap, -, rfl⟩ := E.initData_spec hinit
  unfold compactBlock at hcmpct
  split at hcmpct
  · cases hcmpct
  rename_i coinbase others hvtx
  cases hcmpct
  -- the coinbase is in its slot, and the others are empty
  have hslots : slots = some coinbase :: List.replicate others.length none := by
    simp only [placePrefilled, CBlockHeaderAndShortTxIDs.blockTxCount, length_map,
      length_singleton, replicate_succ] at hplaced
    split at hplaced
    · cases hplaced
    simpa using (congrArg Prod.snd hplaced).symm
  subst hslots
  rw [mapShortIds_skip] at hmap
  have hstart : Fits (some coinbase :: List.replicate others.length none) block.vtx := by
    rw [hvtx]
    refine .cons (.inr rfl) ?_
    clear hmap hvtx hmatch hplaced hinit
    induction others with
    | nil => exact .nil
    | cons _ _ ih => exact .cons (.inl rfl) ih
  -- what the map sends a short id to is a transaction with that short id
  have hfind : ∀ entry ∈ vTxHashes ++ extra_txn, ∀ slot,
      ShortIdMap.find m (CBlockHeaderAndShortTxIDs.getShortID lib block.header nonce entry.1) =
        some slot → block.vtx[slot]? = some entry.2 := by
    intro entry hentry slot hslot
    rcases mem_mapShortIds hmap _ (ShortIdMap.mem_of_find hslot) with hmem | ⟨j, hj, rfl⟩
    · exact absurd hmem not_mem_nil
    · simp only [getElem?_map, Option.map_eq_some_iff] at hj
      obtain ⟨tx, htx, hid⟩ := hj
      have hsame : entry.2 = tx := by
        apply hmatch entry hentry tx _ hid.symm
        rw [hvtx]
        exact mem_of_getElem? htx
      have hj : j < others.length := (List.getElem?_eq_some_iff.mp htx).1
      rw [hvtx, length_cons] at hcount
      rw [hvtx, hsame, Nat.zero_add, Nat.mod_eq_of_lt (by omega), getElem?_cons_succ]
      exact htx
  refine ⟨rfl, rfl, fits_searchPool (fits_searchPool hstart ?_) ?_⟩
  · exact fun entry hentry => hfind entry (mem_append_left _ hentry)
  · exact fun entry hentry => hfind entry (mem_append_right _ hentry)

end NodeEnv

namespace Regtest

def shortIdLib : ShortIdLib where
  sha256 := env.hash256
  bucketSize _ := 1

def payment (nValue : Int) : CTransaction where
  vin := [{ prevout := ⟨1, 0⟩, scriptSig := [OP_1], nSequence := 0xffffffff }]
  vout := [⟨nValue, [OP_1]⟩]

def announced : CBlock := blockOn [genesis] [coinbase [0x51, 0x00] (50 * COIN), payment 1]

def announcement : CBlockHeaderAndShortTxIDs where
  header := announced.header
  nonce := 7
  shorttxids :=
    [CBlockHeaderAndShortTxIDs.getShortID shortIdLib announced.header 7 (env.wtxid (payment 1))]
  prefilledtxn := [⟨0, coinbase [0x51, 0x00] (50 * COIN)⟩]
  popData := {}

def awaited : PartiallyDownloadedBlock where
  header := announced.header
  txn_available := [some (coinbase [0x51, 0x00] (50 * COIN)), none]

end Regtest

end VBitcoin
