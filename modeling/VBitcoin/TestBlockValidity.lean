import VBitcoin.CoinbaseTemplate
import VBitcoin.HeaderCheck

/-!
**Trying a block without keeping it** — `TestBlockValidity` (`validation.cpp`).  The coins are
tried on a cache that is never flushed (`ReadFrom`).  The PoP library has no such cache: the
block is put into its tree before `ConnectBlock` and taken out only on the way of success.
-/

namespace VBitcoin

/-! ### Reads that a cache passes down -/

/-- What a view may become when a cache over it is used and then dropped. -/
inductive ReadFrom (v : CCoinsView) : CCoinsView → Prop
  | refl : ReadFrom v v
  | getCoin {w : CCoinsView} (h : ReadFrom v w) (outpoint : COutPoint) :
      ReadFrom v (w.getCoin outpoint).2
  | getBestBlock {w : CCoinsView} (h : ReadFrom v w) : ReadFrom v w.getBestBlock.2

variable {v w : CCoinsView}

theorem ReadFrom.trans {u : CCoinsView} (huv : ReadFrom u v) (hvw : ReadFrom v w) :
    ReadFrom u w := by
  induction hvw with
  | refl => exact huv
  | getCoin _ outpoint ih => exact ih.getCoin outpoint
  | getBestBlock _ ih => exact ih.getBestBlock

theorem ReadFrom.utxo (hok : v.Ok) (h : ReadFrom v w) :
    w.utxo = v.utxo ∧ w.Ok := by
  induction h with
  | refl => exact ⟨rfl, hok⟩
  | @getCoin w _ outpoint ih =>
    obtain ⟨-, hutxo, -, -, hok'⟩ := w.getCoin_spec outpoint ih.2
    exact ⟨hutxo.trans ih.1, hok'⟩
  | @getBestBlock w _ ih =>
    obtain ⟨-, hok', hutxo, -⟩ := w.getBestBlock_spec ih.2
    exact ⟨hutxo.trans ih.1, hok'⟩

/-! ### `ConnectBlock` only reads below its view -/

section Reads

variable {c c' : CCoinsViewCache}

theorem readFrom_fetchCoin (c : CCoinsViewCache) (outpoint : COutPoint) :
    ReadFrom c.base (c.fetchCoin outpoint).2.base := by
  unfold CCoinsViewCache.fetchCoin CCoinsViewCache.fetchFrom
  split
  · exact .refl
  · split
    · rename_i hbase
      have := ReadFrom.refl.getCoin (v := c.base) outpoint
      rwa [hbase] at this
    · rename_i hbase
      have := ReadFrom.refl.getCoin (v := c.base) outpoint
      rwa [hbase] at this

theorem readFrom_haveAll : ∀ (outpoints : List COutPoint) (c : CCoinsViewCache),
    ReadFrom c.base (c.haveAll outpoints).2.base
  | [], _ => .refl
  | outpoint :: rest, c => by
    have hfirst : ReadFrom c.base (c.haveCoin outpoint).2.base := readFrom_fetchCoin c outpoint
    rw [CCoinsViewCache.haveAll]
    split
    · rename_i hhave
      rw [hhave] at hfirst
      exact hfirst.trans (readFrom_haveAll rest _)
    · rename_i hhave
      rwa [hhave] at hfirst

theorem readFrom_haveInputs (c : CCoinsViewCache) (tx : CTransaction) :
    ReadFrom c.base (c.haveInputs tx).2.base := by
  unfold CCoinsViewCache.haveInputs
  split
  · exact .refl
  · exact readFrom_haveAll _ c

theorem readFrom_accessAll : ∀ (outpoints : List COutPoint) (c : CCoinsViewCache),
    ReadFrom c.base (c.accessAll outpoints).2.base
  | [], _ => .refl
  | outpoint :: rest, c =>
    (readFrom_fetchCoin c outpoint).trans (readFrom_accessAll rest (c.accessCoin outpoint).2)

theorem readFrom_getBestBlock (c : CCoinsViewCache) : ReadFrom c.base c.getBestBlock.2.base := by
  unfold CCoinsViewCache.getBestBlock
  split
  · exact ReadFrom.refl.getBestBlock
  · exact .refl

theorem readFrom_spendCoin (c : CCoinsViewCache) (outpoint : COutPoint) :
    ReadFrom c.base (c.spendCoin outpoint).2.base := by
  have hfetch := readFrom_fetchCoin c outpoint
  unfold CCoinsViewCache.spendCoin
  split
  · rename_i hfound
    rwa [hfound] at hfetch
  · rename_i hfound
    rw [hfound] at hfetch
    split <;> exact hfetch

theorem base_addCoin {outpoint : COutPoint} {coin : Coin} {possible_overwrite : Bool}
    (h : c.addCoin outpoint coin possible_overwrite = .ok c') : c'.base = c.base := by
  rw [CCoinsViewCache.addCoin, bind_eq_ok] at h
  obtain ⟨-, -, h⟩ := h
  split at h
  · cases h
    rfl
  · dsimp only at h
    rw [bind_eq_ok] at h
    obtain ⟨-, -, h⟩ := h
    cases h
    rfl

theorem readFrom_spendInputs : ∀ {outpoints : List COutPoint} {c : CCoinsViewCache}
    {result : CTxUndo × CCoinsViewCache}, spendInputs c outpoints = .ok result →
      ReadFrom c.base result.2.base
  | [], c, result, h => by
    cases h
    exact .refl
  | outpoint :: rest, c, result, h => by
    have hfirst := readFrom_spendCoin c outpoint
    rw [spendInputs] at h
    split at h
    · cases h
    · rename_i hspend
      rw [hspend] at hfirst
      rw [bind_eq_ok] at h
      obtain ⟨later, hlater, h⟩ := h
      cases h
      have hrest := readFrom_spendInputs hlater
      exact hfirst.trans hrest

theorem readFrom_addCoinsFrom {txid : UInt256} {fCoinbase check : Bool} {nHeight : Nat} :
    ∀ {vout : List CTxOut} {n : Nat} {c c' : CCoinsViewCache},
      addCoinsFrom txid fCoinbase nHeight check n vout c = .ok c' → ReadFrom c.base c'.base
  | [], n, c, c', h => by
    cases h
    exact .refl
  | txout :: rest, n, c, c', h => by
    have hask : ReadFrom c.base
        (if check then c.haveCoin ⟨txid, n⟩ else (fCoinbase, c)).2.base := by
      split
      · exact readFrom_fetchCoin c ⟨txid, n⟩
      · exact .refl
    rw [addCoinsFrom] at h
    generalize (if check then c.haveCoin ⟨txid, n⟩ else (fCoinbase, c)) = asked at h hask
    obtain ⟨overwrite, asked⟩ := asked
    simp only [bind_eq_ok] at h
    obtain ⟨added, hadd, h⟩ := h
    have hrest := readFrom_addCoinsFrom h
    rw [base_addCoin hadd] at hrest
    exact hask.trans hrest

theorem readFrom_checkBIP30 : ∀ {outpoints : List COutPoint} {c c' : CCoinsViewCache},
    NodeEnv.checkBIP30 c outpoints = .ok c' → ReadFrom c.base c'.base
  | [], c, c', h => by
    cases h
    exact .refl
  | outpoint :: rest, c, c', h => by
    have hfirst : ReadFrom c.base (c.haveCoin outpoint).2.base := readFrom_fetchCoin c outpoint
    rw [NodeEnv.checkBIP30] at h
    split at h
    · cases h
    · rename_i hhave
      rw [hhave] at hfirst
      exact hfirst.trans (readFrom_checkBIP30 h)

variable {tx : CTransaction}

theorem readFrom_checkTxInputs {nSpendHeight : Nat}
    {result : Int × CCoinsViewCache} (h : checkTxInputs tx c nSpendHeight = .ok result) :
    ReadFrom c.base result.2.base := by
  have hreads := (readFrom_haveInputs c tx).trans
    (readFrom_accessAll (tx.vin.map CTxIn.prevout) (c.haveInputs tx).2)
  simp only [checkTxInputs, bind_eq_ok, pure_eq_ok_iff] at h
  obtain ⟨-, -, -, -, -, -, -, -, -, -, rfl⟩ := h
  exact hreads

theorem readFrom_getTransactionSigOpCost {flags : ScriptFlags}
    {result : Nat × CCoinsViewCache} (h : getTransactionSigOpCost tx c flags = .ok result) :
    ReadFrom c.base result.2.base := by
  unfold getTransactionSigOpCost at h
  split at h
  · cases h
    exact .refl
  · simp only [bind_eq_ok, pure_eq_ok_iff] at h
    obtain ⟨-, -, rfl⟩ := h
    exact readFrom_accessAll _ c

end Reads

namespace NodeEnv

variable {E : NodeEnv} {pindex : CBlockIndex} {c c' : CCoinsViewCache}

variable {tx : CTransaction} {s s' : ConnectState}

theorem readFrom_updateCoins {nHeight : Nat}
    {result : CTxUndo × CCoinsViewCache} (h : E.updateCoins tx c nHeight = .ok result) :
    ReadFrom c.base result.2.base := by
  simp only [updateCoins, bind_eq_ok, pure_eq_ok_iff] at h
  obtain ⟨spent, hspend, added, hadd, rfl⟩ := h
  have hspent : ReadFrom c.base spent.2.base := by
    unfold spendTransaction at hspend
    split at hspend
    · cases hspend
      exact .refl
    · exact readFrom_spendInputs hspend
  exact hspent.trans (readFrom_addCoinsFrom hadd)

theorem asBlockFailure_eq_ok {α : Type} {x : Run α} {a : α} (h : asBlockFailure x = .ok a) :
    x = .ok a := by
  unfold asBlockFailure at h
  split at h
  · cases h
  · exact h

theorem readFrom_connectInputs
    (h : E.connectInputs pindex s tx = .ok s') : ReadFrom s.view.base s'.view.base := by
  unfold connectInputs at h
  split at h
  · cases h
    exact .refl
  · simp only [bind_eq_ok, pure_eq_ok_iff] at h
    obtain ⟨checked, hchecked, -, -, -, -, -, -, -, -, rfl⟩ := h
    exact (readFrom_checkTxInputs (asBlockFailure_eq_ok hchecked)).trans
      (readFrom_accessAll _ checked.2)

theorem readFrom_queueScriptChecks (E : NodeEnv) (pindex : CBlockIndex) (s : ConnectState)
    (tx : CTransaction) :
    ReadFrom s.view.base (E.queueScriptChecks pindex s tx).view.base := by
  unfold queueScriptChecks
  split
  · exact .refl
  · exact readFrom_accessAll _ s.view

theorem readFrom_connectTransaction
    (h : E.connectTransaction pindex s tx = .ok s') : ReadFrom s.view.base s'.view.base := by
  simp only [connectTransaction, bind_eq_ok, pure_eq_ok_iff] at h
  obtain ⟨checked, hchecked, cost, hcost, -, -, updated, hupdated, rfl⟩ := h
  have hreads := (readFrom_connectInputs hchecked).trans (readFrom_getTransactionSigOpCost hcost)
  have hqueued := hreads.trans (E.readFrom_queueScriptChecks pindex
    { checked with view := cost.2, nSigOpsCost := checked.nSigOpsCost + cost.1 } tx)
  exact hqueued.trans (readFrom_updateCoins hupdated)

theorem readFrom_connectLoop : ∀ {vtx : List CTransaction} {s s' : ConnectState},
    vtx.foldlM (E.connectTransaction pindex) s = .ok s' → ReadFrom s.view.base s'.view.base
  | [], s, s', h => by
    cases h
    exact .refl
  | tx :: vtx, s, s', h => by
    rw [List.foldlM_cons, bind_eq_ok] at h
    obtain ⟨next, hfirst, hrest⟩ := h
    exact (readFrom_connectTransaction hfirst).trans (readFrom_connectLoop hrest)

/-- **Below its view a block is only read from.** -/
theorem readFrom_connectBlock {block : CBlock} {tip : Option CBlockIndex} {fJustCheck : Bool}
    {result : CCoinsViewCache × CBlockUndo}
    (h : E.connectBlock block pindex c tip fJustCheck = .ok result) :
    ReadFrom c.base result.1.base := by
  simp only [connectBlock, applyBlock, bind_eq_ok] at h
  obtain ⟨-, -, -, -, -, -, h⟩ := h
  have hbest := readFrom_getBestBlock c
  split at h
  · unfold connectGenesis at h
    split at h
    · simp only [bind_eq_ok, pure_eq_ok_iff] at h
      obtain ⟨updated, hupdated, rfl⟩ := h
      have hreads := hbest.trans (readFrom_updateCoins hupdated)
      split <;> exact hreads
    · cases h
  · split at h
    · cases h
    · simp only [connectTransactions, bind_eq_ok, pure_eq_ok_iff] at h
      obtain ⟨view, hbip30, s, hloop, -, -, -, -, rfl⟩ := h
      have hreads := (hbest.trans (readFrom_checkBIP30 hbip30)).trans (readFrom_connectLoop hloop)
      dsimp only
      split <;> exact hreads

end NodeEnv

/-! ### The tree of the library -/

/-- The blocks of the ALT tree; one accepted as a header only has no PoP data. -/
abbrev StoredTree := UInt256 → Option PopData

namespace StoredTree

def addHeader (tree : StoredTree) (hash : UInt256) : StoredTree :=
  if (tree hash).isSome then tree else Function.update tree hash (some {})

def setPayloads (tree : StoredTree) (hash : UInt256) (popData : PopData) : StoredTree :=
  Function.update tree hash (some popData)

def removeSubtree (tree : StoredTree) (hash : UInt256) : StoredTree :=
  Function.update tree hash none

end StoredTree

/-- The library, as what it answers on a given tree. -/
structure PopLibrary where
  context : StoredTree → PopContext
  /-- Whether `acceptBlockHeader` accepts the header of an index entry. -/
  acceptsHeader : StoredTree → CBlockIndex → Bool
  /-- `getBlockIndex` finds the blocks that are stored. -/
  knows : ∀ tree hash, (context tree).knowsBlock hash = (tree hash).isSome
  /-- The bootstrap block is part of the configuration. -/
  bootstrap : ∀ tree tree', (context tree).bootstrapHeight = (context tree').bootstrapHeight

def NodeEnv.withTree (E : NodeEnv) (lib : PopLibrary) (tree : StoredTree) : NodeEnv :=
  { E with pop := lib.context tree }

/-! ### `TestBlockValidity` -/

/-- What `TestBlockValidity` is called with, and what it finds in the node. -/
structure TestContext where
  params : HeaderParams
  node : NodeState
  nAdjustedTime : Int
  pindexPrev : CBlockIndex
  coinsTip : CCoinsView
  fCheckPOW : Bool
  fCheckMerkleRoot : Bool

/-- The verdict, the tree that is left, and the run of `ConnectBlock`, if any. -/
structure TestResult where
  verdict : Run Unit
  tree : StoredTree
  connected : Option (Run (CCoinsViewCache × CBlockUndo)) := none

namespace NodeEnv

variable (E : NodeEnv) (lib : PopLibrary)

/-- Before the library sees the block; `CheckBlock` may mark it. -/
def testChecks (ctx : TestContext) (tree : StoredTree) (block : CBlock) : Run CBlock := do
  require (ctx.node.tip == some ctx.pindexPrev)
    (.assertion "pindexPrev && pindexPrev == ::ChainActive().Tip()")
  (E.withTree lib tree).contextualCheckBlockHeader ctx.params ctx.node block.header ctx.pindexPrev
    ctx.nAdjustedTime
  let block ← (E.withTree lib tree).checkBlock block ctx.fCheckPOW
  (E.withTree lib tree).contextualCheckBlock block (some ctx.pindexPrev) ctx.fCheckMerkleRoot
  pure block

/-- Whether the block is to be added to the tree, and removed again. -/
def shouldRemove (ctx : TestContext) (tree : StoredTree) (block : CBlock) : Bool :=
  (E.withTree lib tree).isCrossedBootstrapBlock (some ctx.pindexPrev) &&
    !(E.withTree lib tree).pop.knowsBlock (E.blockHash block.header)

def testTree (tree : StoredTree) (block : CBlock) : StoredTree :=
  (tree.addHeader (E.blockHash block.header)).setPayloads (E.blockHash block.header) block.popData

/-- On a new cache over the tip, in the tree if it is to be. -/
def testConnect (ctx : TestContext) (tree : StoredTree) (block : CBlock) :
    Run (CCoinsViewCache × CBlockUndo) :=
  (E.withTree lib tree).connectBlock block (E.nextIndex block ctx.pindexPrev)
    { base := ctx.coinsTip } (some ctx.pindexPrev) true

/-- The removal is behind the return of a failure. -/
def testRest (ctx : TestContext) (tree : StoredTree) (block : CBlock) (remove : Bool) :
    TestResult :=
  match E.testConnect lib ctx tree block with
  | .error stop => { verdict := .error stop, tree, connected := some (.error stop) }
  | .ok result =>
    { verdict := .ok ()
      tree :=
        if (E.withTree lib tree).isCrossedBootstrapBlock (some ctx.pindexPrev) && remove then
          tree.removeSubtree (E.blockHash block.header)
        else tree
      connected := some (.ok result) }

def testBlockValidity (ctx : TestContext) (tree : StoredTree) (block : CBlock) : TestResult :=
  match E.testChecks lib ctx tree block with
  | .error stop => { verdict := .error stop, tree }
  | .ok block =>
    if E.shouldRemove lib ctx tree block then
      if lib.acceptsHeader tree (E.nextIndex block ctx.pindexPrev) then
        E.testRest lib ctx (E.testTree tree block) block true
      else
        { verdict := .error (.assertion "ret && \"alt tree can not accept alt block\""), tree }
    else E.testRest lib ctx tree block false

end NodeEnv

/-- The coins of the tip after a call; a cache of a failed run is dropped. -/
def TestResult.LeavesCoins (result : TestResult) (coinsTip coinsTip' : CCoinsView) : Prop :=
  match result.connected with
  | none => coinsTip' = coinsTip
  | some (.ok (view, _)) => coinsTip' = view.base
  | some (.error _) => ReadFrom coinsTip coinsTip'

/-! ### What a call leaves behind -/

namespace NodeEnv

variable {E : NodeEnv} {lib : PopLibrary} {ctx : TestContext} {tree : StoredTree} {block : CBlock}

theorem testTree_apply_self : E.testTree tree block (E.blockHash block.header) =
    some block.popData :=
  Function.update_self ..

theorem removeSubtree_testTree (h : tree (E.blockHash block.header) = none) :
    (E.testTree tree block).removeSubtree (E.blockHash block.header) = tree := by
  funext hash
  by_cases hhash : hash = E.blockHash block.header
  · subst hhash
    rw [StoredTree.removeSubtree, Function.update_self, h]
  · simp [testTree, StoredTree.removeSubtree, StoredTree.setPayloads, StoredTree.addHeader, h,
      Function.update_of_ne hhash]

theorem testTree_ne (h : tree (E.blockHash block.header) = none) : E.testTree tree block ≠ tree := by
  intro heq
  rw [← heq, testTree_apply_self] at h
  cases h

theorem absent_of_shouldRemove (h : E.shouldRemove lib ctx tree block = true) :
    tree (E.blockHash block.header) = none := by
  simp only [shouldRemove, withTree, lib.knows, Bool.and_eq_true, Bool.not_eq_true'] at h
  exact Option.isNone_iff_eq_none.mp (by simpa using h.2)

theorem crossed_of_shouldRemove (h : E.shouldRemove lib ctx tree block = true)
    (tree' : StoredTree) :
    (E.withTree lib tree').isCrossedBootstrapBlock (some ctx.pindexPrev) = true := by
  rw [shouldRemove, Bool.and_eq_true] at h
  have hbefore : (lib.context tree).bootstrapHeight ≤ ctx.pindexPrev.nHeight :=
    of_decide_eq_true h.1
  have hafter : (lib.context tree').bootstrapHeight ≤ ctx.pindexPrev.nHeight := by
    rwa [lib.bootstrap tree' tree]
  exact decide_eq_true hafter

theorem testRest_keep : (E.testRest lib ctx tree block false).tree = tree := by
  unfold testRest
  split <;> simp

theorem testRest_remove (h : E.shouldRemove lib ctx tree block = true) :
    (E.testRest lib ctx (E.testTree tree block) block true).tree = tree ↔
      accepted (E.testConnect lib ctx (E.testTree tree block) block) = true := by
  have habsent := absent_of_shouldRemove h
  unfold testRest
  cases hconnect : E.testConnect lib ctx (E.testTree tree block) block with
  | error stop => simpa using testTree_ne habsent
  | ok result => simp [crossed_of_shouldRemove h, removeSubtree_testTree habsent]

variable {coinsTip' : CCoinsView}

theorem testRest_coins (hok : ctx.coinsTip.Ok) (remove : Bool)
    (h : (E.testRest lib ctx tree block remove).LeavesCoins ctx.coinsTip coinsTip') :
    coinsTip'.utxo = ctx.coinsTip.utxo := by
  unfold testRest at h
  cases hconnect : E.testConnect lib ctx tree block with
  | error stop =>
    simp only [hconnect, TestResult.LeavesCoins] at h
    exact (h.utxo hok).1
  | ok result =>
    simp only [hconnect, TestResult.LeavesCoins] at h
    rw [h]
    exact (ReadFrom.utxo hok (readFrom_connectBlock hconnect)).1

/-- **The coins of the tip stay what they are**, whatever the verdict. -/
theorem testBlockValidity_coins (hok : ctx.coinsTip.Ok)
    (h : (E.testBlockValidity lib ctx tree block).LeavesCoins ctx.coinsTip coinsTip') :
    coinsTip'.utxo = ctx.coinsTip.utxo := by
  unfold testBlockValidity at h
  split at h
  · rw [(h : coinsTip' = ctx.coinsTip)]
  · split at h
    · split at h
      · exact testRest_coins hok true h
      · rw [(h : coinsTip' = ctx.coinsTip)]
    · exact testRest_coins hok false h

/-- **When a test has no lasting effect**: unless the block passed the checks, was added to the
    tree, and then refused by `ConnectBlock`. -/
theorem testBlockValidity_no_effect_iff (hok : ctx.coinsTip.Ok) :
    ((E.testBlockValidity lib ctx tree block).tree = tree ∧
      ∀ coinsTip', (E.testBlockValidity lib ctx tree block).LeavesCoins ctx.coinsTip coinsTip' →
        coinsTip'.utxo = ctx.coinsTip.utxo) ↔
      ∀ checked, E.testChecks lib ctx tree block = .ok checked →
        E.shouldRemove lib ctx tree checked = true →
        lib.acceptsHeader tree (E.nextIndex checked ctx.pindexPrev) = true →
        accepted (E.testConnect lib ctx (E.testTree tree checked) checked) = true := by
  rw [and_iff_left fun _ => testBlockValidity_coins hok]
  unfold testBlockValidity
  cases hchecks : E.testChecks lib ctx tree block with
  | error stop => simp
  | ok checked =>
    by_cases hremove : E.shouldRemove lib ctx tree checked = true
    · by_cases haccepts : lib.acceptsHeader tree (E.nextIndex checked ctx.pindexPrev) = true
      · simp only [hremove, haccepts, if_true, testRest_remove hremove, Except.ok.injEq]
        constructor
        · rintro h _ rfl _ _
          exact h
        · exact fun h => h checked rfl hremove haccepts
      · simp only [hremove, haccepts, if_true, if_false, Bool.false_eq_true, true_iff]
        rintro _ ⟨⟩ _ haccepts'
        exact absurd haccepts' haccepts
    · simp only [hremove, if_false, Bool.false_eq_true, testRest_keep, true_iff]
      rintro _ ⟨⟩ hremove'
      exact absurd hremove' hremove

end NodeEnv

namespace Regtest

def popLibrary : PopLibrary where
  context tree := { pop with knowsBlock := fun hash => (tree hash).isSome }
  acceptsHeader _ _ := true
  knows _ _ := rfl
  bootstrap _ _ := rfl

def genesisContext : TestContext where
  params := ⟨[], false, 600, fun _ _ => 0x207fffff⟩
  node := ⟨env.tipIndex [genesis], fun _ => none⟩
  nAdjustedTime := 1631200600
  pindexPrev := env.blockIndex genesis []
  coinsTip := .db { CCoinsViewDB.new with bestBlock := env.blockHash genesis.header }
  fCheckPOW := false
  fCheckMerkleRoot := true

def payingBlock (nValue : Int) : CBlock := blockOn [genesis] [coinbase [0x51, 0x51] nValue]

/-- A block that is accepted leaves the tree as it was. -/
theorem payingBlock_no_effect :
    (env.testBlockValidity popLibrary genesisContext (fun _ => none) (payingBlock (50 * COIN))).tree =
      (fun _ => none) ∧
    ∀ coinsTip', (env.testBlockValidity popLibrary genesisContext (fun _ => none)
      (payingBlock (50 * COIN))).LeavesCoins genesisContext.coinsTip coinsTip' →
        coinsTip'.utxo = genesisContext.coinsTip.utxo := by
  have hok : genesisContext.coinsTip.Ok := trivial
  apply (NodeEnv.testBlockValidity_no_effect_iff hok).mpr
  intro checked hchecked _ _
  have hblock : env.testChecks popLibrary genesisContext (fun _ => none) (payingBlock (50 * COIN)) =
      .ok (payingBlock (50 * COIN)) := by
    decide +kernel
  rw [hblock, Except.ok.injEq] at hchecked
  subst hchecked
  decide +kernel

/-- Refused for a coin too much, it stays in the tree. -/
theorem payingBlock_stays : (env.testBlockValidity popLibrary genesisContext (fun _ => none)
      (payingBlock (51 * COIN))).verdict = .error (.blockInvalid .BLOCK_CONSENSUS "bad-cb-pop-amount"
        "ConnectBlock(): coinbase pays too much (actual=5100000000 vs POW=5000000000 + POP=0)") ∧
    (env.testBlockValidity popLibrary genesisContext (fun _ => none) (payingBlock (51 * COIN))).tree
      (env.blockHash (payingBlock (51 * COIN)).header) = some {} := by
  decide +kernel

end Regtest

end VBitcoin
