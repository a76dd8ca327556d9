import VBitcoin.ChainCoins
import VBitcoin.Compressor

/-!
**The regression-test network** (`chainparams.cpp`, `CRegTestParams`) — its consensus
parameters, its genesis block with three spendable outputs, and a PoP library that pays
nothing.  The double SHA-256 is replaced by `foldHash`, which can be evaluated in proofs and is
always below the proof-of-work limit.
-/

namespace VBitcoin.Regtest

open List

/-- A polynomial of the bytes, cut to 248 bits. -/
def foldHash (bytes : Bytes) : UInt256 :=
  BitVec.ofNat 256 (bytes.foldl (fun h byte => h * 257 + byte.toNat + 1) 7 % 2 ^ 248)

/-- The coinbase of the genesis block: 5, 10 and 15 coins. -/
def genesisTx : CTransaction where
  vin := [{
    prevout := COutPoint.null
    scriptSig := [0x04, 0xff, 0xff, 0x7f, 0x20, 0x01, 0x04, 0x39, 0x56, 0x65, 0x72, 0x69, 0x42,
      0x6c, 0x6f, 0x63, 0x6b, 0x20, 0x42, 0x69, 0x74, 0x63, 0x6f, 0x69, 0x6e, 0x20, 0x52, 0x65,
      0x66, 0x65, 0x72, 0x65, 0x6e, 0x63, 0x65, 0x20, 0x49, 0x6d, 0x70, 0x6c, 0x65, 0x6d, 0x65,
      0x6e, 0x74, 0x61, 0x74, 0x69, 0x6f, 0x6e, 0x2c, 0x20, 0x53, 0x65, 0x70, 0x74, 0x20, 0x31,
      0x33, 0x2c, 0x20, 0x32, 0x30, 0x32, 0x31]
    nSequence := 0xffffffff }]
  vout := [
    ⟨500000000, [0x00, 0x14, 0xc8, 0xab, 0x37, 0x8a, 0x1d, 0x35, 0x27, 0x82, 0xe2, 0x72, 0x5b,
      0xae, 0xb5, 0x56, 0x12, 0xa5, 0xc4, 0x8f, 0x3f, 0xb2]⟩,
    ⟨1000000000, [0x76, 0xa9, 0x14, 0x5e, 0xda, 0x02, 0x9a, 0x30, 0x65, 0x32, 0xdf, 0xe7, 0x00,
      0xee, 0x72, 0x5b, 0x25, 0x70, 0x51, 0x6f, 0x69, 0xf9, 0x90, 0x88, 0xac]⟩,
    ⟨1500000000, [0x76, 0xa9, 0x14, 0x5e, 0xda, 0x02, 0x9a, 0x30, 0x65, 0x32, 0xdf, 0xe7, 0x00,
      0xee, 0x72, 0x5b, 0x25, 0x70, 0x51, 0x6f, 0x69, 0xf9, 0x90, 0x88, 0xac]⟩]
  nVersion := 1

def genesis : CBlock where
  header := {
    nVersion := 1
    hashPrevBlock := 0
    hashMerkleRoot := foldHash (genesisTx.serialize false)
    nTime := 1631200000
    nBits := 0x207fffff
    nNonce := 1 }
  vtx := [genesisTx]

def params : ConsensusParams where
  hashGenesisBlock := foldHash genesis.header.serialize
  nSubsidyHalvingInterval := 150
  BIP34Height := 500
  BIP65Height := 1351
  BIP66Height := 1251
  CSVHeight := 432
  SegwitHeight := 0
  powLimit := 0x7fffffffffffffffffffffffffffffffffffffffffffffffffffffffffffffff
  VeriBlockPopSecurityHeight := 200

/-- A library that knows every block and pays nobody. -/
def pop : PopContext where
  encode popData := (popData.context ++ popData.vtbs ++ popData.atvs).flatten
  check _ := none
  bootstrapHeight := 0
  setState _ := true
  calculateTopLevelMerkleRoot txRoot popData _ :=
    foldHash (serializeUInt256 txRoot ++
      (popData.context ++ popData.vtbs ++ popData.atvs).flatten)
  knowsBlock _ := true
  endorsementSettlementInterval := 150
  popPayoutDelay := 150
  getPopPayout _ := some []

/-- The network, with scripts that always succeed and no valid public keys. -/
def env : NodeEnv where
  consensus := params
  pop := pop
  secp := ⟨fun _ => false, fun _ => none⟩
  hash256 := foldHash
  checkInputs _ _ _ := true
  fScriptChecks _ := true

theorem secp_inverts : env.secp.Inverts := by
  intro _ _ hvalid
  cases hvalid

def coinbase (scriptSig : CScript) (nValue : Int) : CTransaction where
  vin := [{ prevout := COutPoint.null, scriptSig, nSequence := 0xffffffff }]
  vout := [⟨nValue, [OP_1]⟩]

def filler : CTransaction where
  vin := [{ prevout := COutPoint.null, scriptSig := [0x51, 0x51], nSequence := 0xffffffff }]
  vout := [⟨0, [OP_RETURN]⟩]

def blockOn (chain : List CBlock) (vtx : List CTransaction) : CBlock where
  header := {
    nVersion := 4
    hashPrevBlock := env.tipHash chain
    hashMerkleRoot := (env.computeMerkleRoot (vtx.map env.txid)).1
    nTime := 1631200000 + 600 * UInt32.ofNat chain.length
    nBits := 0x207fffff
    nNonce := 0 }
  vtx

def fillerChain : Nat → List CBlock
  | 0 => [genesis]
  | n + 1 => blockOn (fillerChain n) [filler] :: fillerChain n

/-! ### The hashes of a chain -/

/-- What `ChainHashes` and `GenesisTxid` ask, so that one evaluation decides both. -/
structure Plain (chain : List CBlock) : Prop where
  distinct : (chain.map fun b => env.blockHash b.header).Nodup
  usual : ∀ b ∈ chain, env.blockHash b.header ≠ 0 ∧
    env.blockHash b.header ≠ env.consensus.BIP34Hash ∧
    (∀ exception ∈ NodeEnv.bip30Exceptions, env.blockHash b.header ≠ exception.2) ∧
    ∀ tx ∈ b.vtx, env.txid tx = env.txid genesisTx → tx.vout = genesisTx.vout

instance (chain : List CBlock) : Decidable (Plain chain) :=
  decidable_of_iff (_ ∧ _) ⟨fun ⟨hdistinct, husual⟩ => ⟨hdistinct, husual⟩,
    fun ⟨hdistinct, husual⟩ => ⟨hdistinct, husual⟩⟩

variable {block : CBlock} {chain : List CBlock} {view : CCoinsViewCache}

theorem Plain.tail (h : Plain (block :: chain)) : Plain chain :=
  ⟨(nodup_cons.mp h.distinct).2, (forall_mem_cons.mp h.usual).2⟩

theorem Plain.hashes (h : Plain chain) : env.ChainHashes chain where
  distinct := h.distinct
  not_null b hb := (h.usual b hb).1
  not_bip34 b hb := (h.usual b hb).2.1
  not_exception b hb := (h.usual b hb).2.2.1

theorem Plain.txid (h : Plain chain)
    (hgenesis : NodeEnv.genesisTx chain = some genesisTx) : env.GenesisTxid chain := by
  intro t ht
  rw [hgenesis] at ht
  cases ht
  exact fun b hb => (h.usual b hb).2.2.2

/-! ### Connecting a chain -/

/-- `CheckBlock` and `ConnectBlock` of the next block of a chain. -/
def connectOne (chain : List CBlock) (view : CCoinsViewCache) (block : CBlock) :
    Option (CCoinsViewCache × CBlockUndo) :=
  match env.checkBlockRules block true with
  | .error _ => none
  | .ok _ =>
    match env.connectBlock block (env.blockIndex block chain) view (env.tipIndex chain) false with
    | .error _ => none
    | .ok result => some result

def connectAll : List CBlock → Option CCoinsViewCache
  | [] => some { base := .db CCoinsViewDB.new }
  | block :: chain =>
    match connectAll chain with
    | none => none
    | some view => (connectOne chain view block).map Prod.fst

def viewOf (chain : List CBlock) : CCoinsViewCache :=
  (connectAll chain).getD { base := .db CCoinsViewDB.new }

variable {result : CCoinsViewCache × CBlockUndo}

theorem connectOne_eq_some (h : connectOne chain view block = some result) :
    env.checkBlockRules block true = .ok () ∧
      env.connectBlock block (env.blockIndex block chain) view (env.tipIndex chain) false =
        .ok result := by
  delta connectOne at h
  cases hcheck : env.checkBlockRules block true with
  | error stop =>
    rw [hcheck] at h
    cases h
  | ok u =>
    rw [hcheck] at h
    cases hconnect : env.connectBlock block (env.blockIndex block chain) view
        (env.tipIndex chain) false with
    | error stop =>
      rw [hconnect] at h
      cases h
    | ok connected =>
      rw [hconnect] at h
      exact ⟨rfl, congrArg Except.ok (Option.some.inj h)⟩

theorem connectOne_of_ok (hcheck : env.checkBlockRules block true = .ok ())
    (hconnect : env.connectBlock block (env.blockIndex block chain) view (env.tipIndex chain)
      false = .ok result) : connectOne chain view block = some result := by
  delta connectOne
  rw [hcheck, hconnect]

theorem connectsTo_of_connectAll : ∀ {chain : List CBlock} {view : CCoinsViewCache},
    connectAll chain = some view → env.ConnectsTo chain view
  | [], view, h => by
      cases h
      exact .empty ⟨trivial, CacheOk.empty _⟩ (fun _ => rfl) rfl
  | block :: chain, view, h => by
      rw [connectAll] at h
      split at h
      · cases h
      · rename_i before hbefore
        obtain ⟨result, hresult, rfl⟩ := Option.map_eq_some_iff.mp h
        obtain ⟨hcheck, hconnect⟩ := connectOne_eq_some hresult
        exact .connect (connectsTo_of_connectAll hbefore) hcheck hconnect

theorem connectsTo_viewOf (h : (connectAll chain).isSome = true) :
    env.ConnectsTo chain (viewOf chain) := by
  obtain ⟨view, hview⟩ := Option.isSome_iff_exists.mp h
  rw [viewOf, hview]
  exact connectsTo_of_connectAll hview

/-! ### Blocks that claim nothing -/

theorem foldHash_lt (bytes : Bytes) : (foldHash bytes).toNat < 2 ^ 248 := by
  rw [foldHash, BitVec.toNat_ofNat]
  exact lt_of_le_of_lt (Nat.mod_le _ _) (Nat.mod_lt _ (Nat.two_pow_pos 248))

theorem hasWork (header : CBlockHeader) :
    checkProofOfWork (env.blockHash header) 0x207fffff env.consensus.powLimit = true := by
  have hcompact : setCompact 0x207fffff = (0x7fffff * 2 ^ 232, false, false) := by decide
  have hlt : (env.blockHash header).toNat < 2 ^ 248 := foldHash_lt header.serialize
  have hlimit : 0x7fffff * 2 ^ 232 ≤ env.consensus.powLimit := by decide
  rw [checkProofOfWork, hcompact]
  simp only [Bool.not_false, Bool.true_and, Bool.and_eq_true, bne_iff_ne, decide_eq_true_eq]
  refine ⟨⟨by decide, hlimit⟩, hlt.le.trans (by decide)⟩

theorem filler_checks (chain : List CBlock) :
    env.checkBlockRules (blockOn chain [filler]) true = .ok () := by
  have hwork : env.checkBlockHeader (blockOn chain [filler]).header true = .ok () := by
    rw [NodeEnv.checkBlockHeader, show (blockOn chain [filler]).header.nBits = 0x207fffff from rfl,
      hasWork]
    rfl
  have hpopBit : (blockOn chain [filler]).header.hasPopBit = false := by
    rw [CBlockHeader.hasPopBit, show (blockOn chain [filler]).header.nVersion = 4 from rfl]
    decide
  have htxs : (blockOn chain [filler]).vtx = [filler] := rfl
  have hdata : (blockOn chain [filler]).popData = {} := rfl
  have hpop : env.checkPopData (blockOn chain [filler]) = .ok () := by
    rw [NodeEnv.checkPopData, hpopBit, hdata]
    rfl
  have hweight : env.getBlockWeight (blockOn chain [filler]) = 572 := by
    simp only [NodeEnv.getBlockWeight, CBlock.serialize, length_append,
      CBlockHeader.serialize_length, hpopBit, htxs, hdata]
    decide
  simp only [NodeEnv.checkBlockRules, hwork, hpop, hweight, htxs, ok_bind]
  decide +kernel

theorem connectTransaction_filler (pindex : CBlockIndex) (view : CCoinsViewCache) :
    env.connectTransaction pindex { view } filler = .ok { view, txundos := [[]] } := by
  have hcoinbase : filler.isCoinBase = true := by decide
  have hsigops : getLegacySigOpCount filler = 0 := by decide
  simp only [NodeEnv.connectTransaction, NodeEnv.connectInputs, getTransactionSigOpCost, hcoinbase,
    hsigops, NodeEnv.queueScriptChecks, NodeEnv.updateCoins, NodeEnv.spendTransaction]
  rfl

theorem checkPop_filler {tip : CBlock} {rest : List CBlock}
    (hvtx : block.vtx = [filler]) (hlength : (tip :: rest).length < 150) :
    env.checkPop block (env.blockIndex block (tip :: rest)) 0 (env.tipIndex (tip :: rest)) =
      .ok () := by
  have hrewards : env.getPopRewards (env.blockIndex tip rest) = .ok OrderedMap.empty := by
    have hheight : (env.blockIndex tip rest).nHeight < 200 := by
      rw [NodeEnv.blockIndex_nHeight]
      exact (Nat.lt_succ_self _).trans (hlength.trans (by decide))
    have hactive : env.paramsPopActive (env.blockIndex tip rest).nHeight = false :=
      decide_eq_false hheight.not_ge
    rw [NodeEnv.getPopRewards, hactive]
    rfl
  have hsubsidy : env.getBlockSubsidy (tip :: rest).length = 50 * COIN := by
    have hactive : env.isPopActive (tip :: rest).length = false :=
      decide_eq_false (hlength.trans (by decide)).not_ge
    have hhalvings : (tip :: rest).length / env.consensus.nSubsidyHalvingInterval = 0 :=
      Nat.div_eq_of_lt hlength
    rw [NodeEnv.getBlockSubsidy, hactive, hhalvings]
    rfl
  have hcrossed : env.isCrossedBootstrapBlock (env.tipIndex (tip :: rest)) = true := rfl
  have hpprev : (env.blockIndex block (tip :: rest)).pprev = some (env.blockIndex tip rest) := rfl
  have hcoinbase : env.checkCoinbaseWithRewards filler 0 (tip :: rest).length OrderedMap.empty =
      .ok () := by
    rw [NodeEnv.checkCoinbaseWithRewards, hsubsidy]
    rfl
  have hstate : ∀ hash, env.pop.setState hash = true := fun _ => rfl
  simp only [NodeEnv.checkPop, hcrossed, if_true, hvtx, NodeEnv.checkCoinbaseTxWithPopRewards,
    hpprev, hrewards, NodeEnv.blockIndex_nHeight, hcoinbase, ok_bind, hstate, require_true]

theorem connectOne_filler (hne : chain ≠ [])
    (hlength : chain.length < 150) (hbest : view.hashBlock = env.tipHash chain)
    (hnull : env.tipHash chain ≠ 0)
    (hgenesis : env.tipHash (blockOn chain [filler] :: chain) ≠ env.consensus.hashGenesisBlock)
    (hfresh : view.haveCoin ⟨env.txid filler, 0⟩ = (false, view)) :
    connectOne chain view (blockOn chain [filler]) =
      some (view.setBestBlock (env.tipHash (blockOn chain [filler] :: chain)), []) := by
  obtain ⟨tip, rest, rfl⟩ := exists_cons_of_ne_nil hne
  have hcheck := filler_checks (tip :: rest)
  have hvtx : (blockOn (tip :: rest) [filler]).vtx = [filler] := rfl
  have hchecked : (blockOn (tip :: rest) [filler]).fChecked = false := rfl
  generalize blockOn (tip :: rest) [filler] = block at *
  have hrecheck : ∀ pprev, env.recheckBlock block pprev false = .ok () := by
    intro pprev
    rw [NodeEnv.recheckBlock, NodeEnv.checkBlock, hchecked, Bool.not_false, hcheck]
    rfl
  have hget : view.getBestBlock = (env.tipHash (tip :: rest), view) := by
    rw [CCoinsViewCache.getBestBlock, hbest, UInt256.isNull, beq_eq_false_iff_ne.mpr hnull]
    rfl
  have hbip30 : ∀ enforced : Bool, NodeEnv.checkBIP30 view
      (if enforced then [filler].flatMap env.createdBy else []) = .ok view := by
    intro enforced
    cases enforced with
    | false => rfl
    | true =>
      show NodeEnv.checkBIP30 view [⟨env.txid filler, 0⟩] = .ok view
      rw [NodeEnv.checkBIP30, hfresh]
      rfl
  have happly : env.applyBlock block (env.blockIndex block (tip :: rest)) view
      (env.tipIndex (tip :: rest)) false =
        .ok (view.setBestBlock (env.tipHash (block :: tip :: rest)), []) := by
    have hother : (env.blockHash block.header == env.consensus.hashGenesisBlock) = false :=
      beq_eq_false_iff_ne.mpr hgenesis
    have hpprev : (env.blockIndex block (tip :: rest)).pprev = some (env.blockIndex tip rest) := rfl
    have hhash : (env.blockIndex tip rest).getBlockHash = env.tipHash (tip :: rest) := rfl
    simp only [NodeEnv.applyBlock, hget, hother, hpprev, hhash, Option.map_some, Option.getD_some,
      beq_self_eq_true, require_true, ok_bind, Bool.false_eq_true, if_false,
      NodeEnv.connectTransactions, hbip30, hvtx, foldlM_cons, foldlM_nil,
      connectTransaction_filler]
    rw [pure_bind, checkPop_filler hvtx hlength]
    rfl
  have hindex : ((env.blockIndex block (tip :: rest)).getBlockHash == env.blockHash block.header) =
      true := beq_self_eq_true _
  refine connectOne_of_ok hcheck ?_
  rw [NodeEnv.connectBlock, hindex, hrecheck, happly]
  rfl

/-- Neither a cache nor the database under it has a coin. -/
def lacksCoin (view : CCoinsViewCache) (o : COutPoint) : Bool :=
  (view.cacheCoins.lookup o).isNone &&
    match view.base with
    | .db base => (base.coins o).isNone
    | .cache _ _ _ => false

theorem haveCoin_of_lacksCoin {o : COutPoint}
    (h : lacksCoin view o = true) : view.haveCoin o = (false, view) := by
  obtain ⟨base, hashBlock, cacheCoins⟩ := view
  obtain ⟨hcache, hbase⟩ := Bool.and_eq_true_iff.mp h
  cases base with
  | cache hashBlock cacheCoins base => cases hbase
  | db base =>
    simp only [CCoinsViewCache.haveCoin, CCoinsViewCache.fetchCoin, CCoinsViewCache.fetchFrom,
      CCoinsView.getCoin, Option.isNone_iff_eq_none.mp hcache, Option.isNone_iff_eq_none.mp hbase]
    rfl

theorem genesis_mem_fillerChain : ∀ n, genesis ∈ fillerChain n
  | 0 => mem_cons_self
  | n + 1 => mem_cons_of_mem _ (genesis_mem_fillerChain n)

theorem fillerChain_length : ∀ n, (fillerChain n).length = n + 1
  | 0 => rfl
  | n + 1 => congrArg (· + 1) (fillerChain_length n)

theorem connectAll_fillerChain {view : CCoinsViewCache} (hview : connectAll [genesis] = some view)
    (hbest : view.hashBlock = env.tipHash [genesis])
    (hlacks : lacksCoin view ⟨env.txid filler, 0⟩ = true) :
    ∀ n < 149, Plain (fillerChain n) →
      connectAll (fillerChain n) = some (view.setBestBlock (env.tipHash (fillerChain n)))
  | 0, _, _ => by
    rw [fillerChain, hview, ← hbest]
    rfl
  | n + 1, hn, hplain => by
    have htail := hplain.tail
    have hne : fillerChain n ≠ [] := ne_nil_of_mem (genesis_mem_fillerChain n)
    have hnull : env.tipHash (fillerChain n) ≠ 0 := by
      obtain ⟨tip, rest, hchain⟩ := exists_cons_of_ne_nil hne
      rw [hchain] at htail ⊢
      exact (htail.usual tip mem_cons_self).1
    have hother : env.tipHash (fillerChain (n + 1)) ≠ env.consensus.hashGenesisBlock := by
      intro heq
      exact (nodup_cons.mp hplain.distinct).1
        (mem_map.mpr ⟨genesis, genesis_mem_fillerChain n, heq.symm⟩)
    rw [fillerChain, connectAll, connectAll_fillerChain hview hbest hlacks n (by omega) htail]
    have hlength : (fillerChain n).length < 150 := by
      rw [fillerChain_length]
      omega
    have hone : connectOne (fillerChain n) (view.setBestBlock (env.tipHash (fillerChain n)))
        (blockOn (fillerChain n) [filler]) =
          some (view.setBestBlock (env.tipHash (fillerChain (n + 1))), []) :=
      connectOne_filler hne hlength rfl hnull hother (haveCoin_of_lacksCoin hlacks)
    simp only [hone]
    rfl

end VBitcoin.Regtest
