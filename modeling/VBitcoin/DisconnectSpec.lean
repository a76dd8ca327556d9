import VBitcoin.ChainCoins
import VBitcoin.Disconnect

/-!
**When disconnecting undoes connecting** — on the ledger the operations of `DisconnectBlock`
are the log that undoes the block, *provided that* every coin is restored as it was.  The first
coin of height zero to be restored needs another output of the genesis transaction, and there
is none if the block spent all that were left.
-/

namespace VBitcoin

open WriteLog List

/-! ### Operations as writes -/

def UndoOp.write : UndoOp → COutPoint × Option Coin
  | .remove out _ => (out, none)
  | .restore out undo => (out, some undo)

/-- Every output removed is there, and no input restored. -/
def cleanRun : Utxo → List UndoOp → Bool
  | _, [] => true
  | coins, .remove out created :: ops =>
    coins out == some created && cleanRun (Function.update coins out none) ops
  | coins, .restore out undo :: ops =>
    (coins out).isNone && cleanRun (Function.update coins out (some undo)) ops

theorem cleanRun_append (coins : Utxo) (ops ops' : List UndoOp) :
    cleanRun coins (ops ++ ops') =
      (cleanRun coins ops && cleanRun (replay coins (ops.map UndoOp.write)) ops') := by
  induction ops generalizing coins with
  | nil => rfl
  | cons op ops ih => cases op <;> simp only [cons_append, cleanRun, ih, Bool.and_assoc] <;> rfl

/-- Does what it should from every set with `Inv`, and keeps `Inv`. -/
def UndoOp.Exact (Inv : Utxo → Prop) : UndoOp → Prop
  | .remove out _ => ∀ coins, Inv coins → Inv (Function.update coins out none)
  | .restore out undo => ∀ coins, Inv coins → restoredCoin coins out undo = some undo ∧
      Inv (Function.update coins out (some undo))

theorem undoRun_of_exact {Inv : Utxo → Prop} : ∀ {ops : List UndoOp} {coins : Utxo},
    Inv coins → (∀ op ∈ ops, op.Exact Inv) → ∀ fClean,
      undoRun (coins, fClean) ops =
        some (replay coins (ops.map UndoOp.write), fClean && cleanRun coins ops)
  | [], coins, _, _, fClean => by simp [undoRun, cleanRun]
  | .remove out created :: ops, coins, hinv, hexact, fClean => by
      have hfirst := hexact _ mem_cons_self coins hinv
      rw [undoRun, undoStep, Option.bind_some, undoRun_of_exact hfirst
        (forall_mem_cons.mp hexact).2, cleanRun, Bool.and_assoc]
      rfl
  | .restore out undo :: ops, coins, hinv, hexact, fClean => by
      obtain ⟨hrestored, hfirst⟩ := hexact _ mem_cons_self coins hinv
      rw [undoRun, undoStep, hrestored, Option.map_some, Option.bind_some, undoRun_of_exact hfirst
        (forall_mem_cons.mp hexact).2, cleanRun, Bool.and_assoc]
      rfl

/-- An operation does what it should or nothing, from every coin set with `Inv`. -/
def UndoOp.Faithful (Inv : Utxo → Prop) : UndoOp → Prop
  | .remove out _ => ∀ coins, Inv coins → Inv (Function.update coins out none)
  | .restore out undo => ∀ coins, Inv coins →
      (∀ coin, restoredCoin coins out undo = some coin → coin = undo) ∧
        Inv (Function.update coins out (some undo))

theorem replay_of_undoRun {Inv : Utxo → Prop} : ∀ {ops : List UndoOp} {coins : Utxo}
    {fClean : Bool} {s : Utxo × Bool}, Inv coins → (∀ op ∈ ops, op.Faithful Inv) →
      undoRun (coins, fClean) ops = some s → s.1 = replay coins (ops.map UndoOp.write)
  | [], coins, fClean, s, _, _, h => by
      cases h
      rfl
  | .remove out created :: ops, coins, fClean, s, hinv, hfaithful, h => by
      rw [undoRun, undoStep, Option.bind_some] at h
      have hrest := replay_of_undoRun (hfaithful _ mem_cons_self coins hinv)
        (forall_mem_cons.mp hfaithful).2 h
      exact hrest
  | .restore out undo :: ops, coins, fClean, s, hinv, hfaithful, h => by
      obtain ⟨hsame, hfirst⟩ := hfaithful _ mem_cons_self coins hinv
      rw [undoRun, undoStep] at h
      cases hrestored : restoredCoin coins out undo with
      | none =>
        rw [hrestored] at h
        cases h
      | some coin =>
        rw [hrestored, hsame coin hrestored, Option.map_some, Option.bind_some] at h
        have hrest := replay_of_undoRun hfirst
          (forall_mem_cons.mp hfaithful).2 h
        exact hrest

theorem cleanRun_removals : ∀ {created : List (COutPoint × Coin)} {coins : Utxo},
    (created.map Prod.fst).Nodup → (∀ kv ∈ created, coins kv.1 = some kv.2) →
      cleanRun coins (removals created) = true
  | [], _, _, _ => rfl
  | (k, v) :: rest, coins, hnodup, hthere => by
      obtain ⟨hk, hnodup⟩ := nodup_cons.mp hnodup
      rw [removals, map_cons, cleanRun, hthere (k, v) mem_cons_self, beq_self_eq_true,
        Bool.true_and]
      refine cleanRun_removals hnodup fun kv hkv => ?_
      rw [Function.update_of_ne]
      · exact hthere kv (mem_cons_of_mem _ hkv)
      · rintro rfl
        exact hk (mem_map.mpr ⟨kv, hkv, rfl⟩)

theorem cleanRun_restorals : ∀ {spent : List (COutPoint × Coin)} {coins : Utxo},
    (spent.map Prod.fst).Nodup → (∀ kv ∈ spent, coins kv.1 = none) →
      cleanRun coins (restorals spent) = true
  | [], _, _, _ => rfl
  | (k, v) :: rest, coins, hnodup, hgone => by
      obtain ⟨hk, hnodup⟩ := nodup_cons.mp hnodup
      rw [restorals, map_cons, cleanRun, hgone (k, v) mem_cons_self, Option.isNone_none,
        Bool.true_and]
      refine cleanRun_restorals hnodup fun kv hkv => ?_
      rw [Function.update_of_ne]
      · exact hgone kv (mem_cons_of_mem _ hkv)
      · rintro rfl
        exact hk (mem_map.mpr ⟨kv, hkv, rfl⟩)

/-! ### Recovering metadata -/

theorem alternateFrom_mem {coins : Utxo} {txid : UInt256} {coin : Coin} :
    ∀ {left n : Nat}, alternateFrom coins txid left n = some coin → ∃ i, coins ⟨txid, i⟩ = some coin
  | left + 1, n, h => by
      rw [alternateFrom] at h
      split at h
      · rename_i hcoin
        cases h
        exact ⟨n, hcoin⟩
      · exact alternateFrom_mem h

theorem alternateFrom_eq_none {coins : Utxo} {txid : UInt256} :
    ∀ {left n : Nat}, alternateFrom coins txid left n = none ↔
      ∀ i, n ≤ i → i < n + left → coins ⟨txid, i⟩ = none
  | 0, n => by
      constructor
      · intro _ i hlow hhigh
        omega
      · intro _
        rfl
  | left + 1, n => by
      rw [alternateFrom]
      cases hcoin : coins ⟨txid, n⟩ with
      | some coin =>
        simp only [reduceCtorEq, false_iff]
        intro h
        rw [h n (Nat.le_refl n) (by omega)] at hcoin
        cases hcoin
      | none =>
        simp only
        rw [alternateFrom_eq_none]
        constructor
        · intro h i hlow hhigh
          rcases Nat.eq_or_lt_of_le hlow with rfl | hlow
          · exact hcoin
          · exact h i hlow (by omega)
        · intro h i hlow hhigh
          exact h i (by omega) (by omega)

theorem restoredCoin_of_ne_zero {undo : Coin} (h : undo.nHeight ≠ 0) (coins : Utxo)
    (out : COutPoint) : restoredCoin coins out undo = some undo := by
  rw [restoredCoin, if_neg h]

/-- Without an output left, the first coin of height zero cannot be restored. -/
theorem undoRun_eq_none (txid : UInt256) : ∀ {ops : List UndoOp} {coins : Utxo},
    (∀ i < MAX_OUTPUTS_PER_BLOCK, coins ⟨txid, i⟩ = none) →
      (∀ out undo, .restore out undo ∈ ops → (undo.nHeight = 0 ↔ out.hash = txid)) →
      (∃ out undo, .restore out undo ∈ ops ∧ undo.nHeight = 0) →
      ∀ fClean, undoRun (coins, fClean) ops = none
  | [], _, _, _, hzero, _ => by
      obtain ⟨_, _, hmem, _⟩ := hzero
      cases hmem
  | .remove out created :: ops, coins, hnone, hops, hzero, fClean => by
      rw [undoRun, undoStep, Option.bind_some]
      refine undoRun_eq_none txid (fun i hi => ?_)
        (fun o u hmem => hops o u (mem_cons_of_mem _ hmem)) ?_ _
      · by_cases ho : (⟨txid, i⟩ : COutPoint) = out
        · rw [ho, Function.update_self]
        · rw [Function.update_of_ne ho]
          exact hnone i hi
      · obtain ⟨o, u, hmem, hu⟩ := hzero
        exact ⟨o, u, (mem_cons.mp hmem).resolve_left (fun h => (by cases h)), hu⟩
  | .restore out undo :: ops, coins, hnone, hops, hzero, fClean => by
      rw [undoRun, undoStep]
      have hhash := hops out undo mem_cons_self
      by_cases hheight : undo.nHeight = 0
      · have hrestored : restoredCoin coins out undo = none := by
          rw [restoredCoin, if_pos hheight, hhash.mp hheight,
            alternateFrom_eq_none.mpr fun i _ hi => hnone i (by omega), Option.map_none]
        rw [hrestored, Option.map_none, Option.bind_none]
      · rw [restoredCoin_of_ne_zero hheight, Option.map_some, Option.bind_some]
        refine undoRun_eq_none txid (fun i hi => ?_)
          (fun o u hmem => hops o u (mem_cons_of_mem _ hmem)) ?_ _
        · rw [Function.update_of_ne]
          · exact hnone i hi
          · rintro rfl
            exact hheight (hhash.mpr rfl)
        · obtain ⟨o, u, hmem, hu⟩ := hzero
          rcases mem_cons.mp hmem with heq | hmem
          · cases heq
            exact absurd hu hheight
          · exact ⟨o, u, hmem, hu⟩

namespace NodeEnv

variable (E : NodeEnv)

/-! ### The log that undoes a block -/

def blockUndoOps (nHeight : Nat) (vtx : List CTransaction) (vtxundo : List CTxUndo) : List UndoOp :=
  (vtx.zip vtxundo).reverse.flatMap fun u => E.undoOps nHeight u.1 u.2

theorem blockUndoOps_cons (nHeight : Nat) (tx : CTransaction) (rest : List CTransaction)
    (vprevout : CTxUndo) (vtxundo : List CTxUndo) :
    E.blockUndoOps nHeight (tx :: rest) (vprevout :: vtxundo) =
      E.blockUndoOps nHeight rest vtxundo ++ E.undoOps nHeight tx vprevout := by
  simp [blockUndoOps]

theorem map_write_undoOps (nHeight : Nat) (tx : CTransaction) (vprevout : CTxUndo) :
    (E.undoOps nHeight tx vprevout).map UndoOp.write =
      undo tx.spent vprevout ((E.created nHeight tx).map Prod.fst) := by
  simp only [undoOps, undo, removals, restorals, removes, puts, map_append, map_map]
  rfl

variable {nHeight : Nat} {coins : Utxo} {vtx : List CTransaction} {vtxundo : CBlockUndo}
  {fees : Int} {chain : List CBlock} {block : CBlock}

variable {tx : CTransaction} {vprevout : CTxUndo} {fee : Int} {vtxundo : List CTxUndo}
  {u : CTransaction × CTxUndo}

theorem TxConnects.replay_undo (h : E.TxConnects nHeight coins tx vprevout fee) :
    replay (replay coins (E.txLog nHeight tx)) ((E.undoOps nHeight tx vprevout).map UndoOp.write) =
      coins := by
  rw [map_write_undoOps]
  exact WriteLog.replay_undo h.held h.free

theorem TxConnects.clean
    (h : E.TxConnects nHeight coins tx vprevout fee) (hnodup : tx.spent.Nodup) :
    cleanRun (replay coins (E.txLog nHeight tx)) (E.undoOps nHeight tx vprevout) = true := by
  have hdistinct := nodup_coinsFrom (E.txid tx) tx.isCoinBase nHeight tx.vout 0
  rw [undoOps, cleanRun_append, Bool.and_eq_true]
  constructor
  · refine cleanRun_removals hdistinct fun kv hkv => ?_
    rw [txLog, replay_append]
    exact replay_puts_of_mem hdistinct hkv _
  · have hkeys : (tx.spent.zip vprevout).reverse.map Prod.fst = tx.spent.reverse := by
      rw [map_reverse, h.held.map_fst_zip]
    have hremovals : (removals (E.created nHeight tx)).map UndoOp.write =
        removes ((E.created nHeight tx).map Prod.fst) := by
      simp only [removals, removes, map_map]
      rfl
    refine cleanRun_restorals (hkeys ▸ nodup_reverse.mpr hnodup) fun kv hkv => ?_
    have hspent : kv.1 ∈ tx.spent := (of_mem_zip (mem_reverse.mp hkv)).1
    rw [hremovals]
    -- an input that the transaction created again is removed with its outputs
    by_cases hcreated : kv.1 ∈ (E.created nHeight tx).map Prod.fst
    · exact replay_removes_of_mem hcreated _
    · rw [replay_removes_of_notMem hcreated, txLog, replay_append,
        replay_of_notMem (by rwa [keys_puts]), replay_removes_of_mem hspent]

/-- **Undoing a block on the ledger.** -/
theorem TxsConnect.replay_undo (h : E.TxsConnect nHeight coins vtx vtxundo fees) :
    replay (replay coins (vtx.flatMap (E.txLog nHeight)))
      ((E.blockUndoOps nHeight vtx vtxundo).map UndoOp.write) = coins := by
  induction h with
  | nil coins => rfl
  | cons htx _ ih =>
    rw [blockUndoOps_cons, map_append, replay_append, flatMap_cons, replay_append, ih]
    exact htx.replay_undo E

theorem TxsConnect.clean (h : E.TxsConnect nHeight coins vtx vtxundo fees)
    (hnodup : ∀ tx ∈ vtx, tx.spent.Nodup) :
    cleanRun (replay coins (vtx.flatMap (E.txLog nHeight))) (E.blockUndoOps nHeight vtx vtxundo) =
      true := by
  induction h with
  | nil coins => rfl
  | @cons coins tx rest vprevout vtxundo fee fees htx hrest ih =>
    rw [blockUndoOps_cons, cleanRun_append, flatMap_cons, replay_append, hrest.replay_undo E,
      ih (forall_mem_cons.mp hnodup).2, Bool.true_and]
    exact htx.clean E (hnodup tx mem_cons_self)

/-! ### The undo data of a block -/

theorem ConnectsOn.spent_coin
    (hon : E.ConnectsOn chain block vtxundo fees) (hchain : E.LedgerChain chain)
    (hu : u ∈ block.vtx.zip ([] :: vtxundo)) {coin : Coin}
    (hcoin : coin ∈ u.2) : KeptCoin chain.length coin ∧ moneyRange coin.out.nValue = true := by
  obtain ⟨mid, fee, hmid, hcoins⟩ := hon.txs.mid E hu
  obtain ⟨o, -, ho⟩ := hmid.held.exists_key hcoin
  refine ⟨?_, hmid.inRange coin hcoin⟩
  rcases hcoins o coin ho with hbefore | ⟨tx, htx, hcreated⟩
  · obtain ⟨hheight, hunspent, hspendable⟩ := hchain.keptCoins E hbefore
    exact ⟨by omega, hunspent, hspendable⟩
  · exact E.keptCoin_created (hon.well.txs tx htx) hcreated

theorem ConnectsOn.fits (hon : E.ConnectsOn chain block vtxundo fees) (hchain : E.LedgerChain chain)
    (hu : u ∈ block.vtx.zip ([] :: vtxundo)) : UndoFits u.1 u.2 := by
  obtain ⟨mid, fee, hmid, -⟩ := hon.txs.mid E hu
  refine ⟨fun txout => (hon.well.txs u.1 (of_mem_zip hu).1).not_isNull,
    (List.Forall₂.length_eq hmid.held).symm, fun coin hcoin => ?_⟩
  obtain ⟨hkept, -⟩ := hon.spent_coin E hchain hu hcoin
  exact ⟨hkept.unspent, hkept.spendable⟩

/-- **The undo data of a block stay within the limits of their format.** -/
theorem ConnectsOn.storable
    (hon : E.ConnectsOn chain block vtxundo fees) (hchain : E.LedgerChain chain)
    (hheight : chain.length < 2 ^ 31) : StorableUndo vtxundo := by
  have hlength := hon.txs.length_eq E
  rw [length_cons] at hlength
  -- every entry belongs to a transaction
  have hzip : ∀ vprevout ∈ vtxundo, ∃ tx, (tx, vprevout) ∈ block.vtx.zip ([] :: vtxundo) := by
    intro vprevout hmem
    have hsnd : (block.vtx.zip ([] :: vtxundo)).map Prod.snd = [] :: vtxundo :=
      map_snd_zip (by rw [length_cons]; omega)
    have hmem : vprevout ∈ (block.vtx.zip ([] :: vtxundo)).map Prod.snd := by
      rw [hsnd]
      exact mem_cons_of_mem _ hmem
    obtain ⟨u, hu, rfl⟩ := mem_map.mp hmem
    exact ⟨u.1, hu⟩
  refine ⟨?_, fun vprevout hmem => ?_, fun vprevout hmem coin hcoin => ?_⟩
  · have hcount := hon.well.count
    simp only [WITNESS_SCALE_FACTOR, MAX_BLOCK_WEIGHT] at hcount
    simp only [MAX_SIZE]
    omega
  · obtain ⟨tx, hu⟩ := hzip vprevout hmem
    have hfits := (hon.fits E hchain hu).length
    have hspent : tx.spent.length ≤ tx.vin.length := by
      simpa using tx.spent_sublist.length_le
    have hsize := (hon.well.txs tx (of_mem_zip hu).1).size
    have hinputs := tx.strippedSize_ge
    simp only [WITNESS_SCALE_FACTOR, MAX_BLOCK_WEIGHT] at hsize
    have hmax : MAX_INPUTS_PER_BLOCK = 24390 := by decide
    simp only at hfits
    omega
  · obtain ⟨tx, hu⟩ := hzip vprevout hmem
    obtain ⟨hkept, hvalue⟩ := hon.spent_coin E hchain hu hcoin
    have hbound := hkept.height
    have hscript := hkept.spendable
    simp only [isUnspendable, Bool.or_eq_false_iff, decide_eq_false_iff_not, not_lt] at hscript
    exact ⟨by omega, hvalue, hscript.2⟩

/-! ### The code -/

theorem zip_undo (hwell : BlockWellFormed block) (vtxundo : CBlockUndo) :
    (block.vtx.zip (none :: vtxundo.map some)).reverse =
      (block.vtx.zip ([] :: vtxundo)).reverse.map
        fun u => (u.1, if u.1.isCoinBase then none else some u.2) := by
  obtain ⟨coinbase, rest, hvtx, hcoinbase, hothers⟩ := hwell.coinbase
  rw [hvtx, zip_cons_cons, zip_cons_cons, map_reverse, map_cons, hcoinbase,
    zip_map_right]
  congr 1
  rw [if_pos rfl]
  congr 1
  refine map_congr_left fun u hu => ?_
  rw [hothers u.1 (of_mem_zip hu).1]
  rfl

/-- What `DisconnectBlock` leaves behind, given what happens on the ledger. -/
def Disconnects (view : CCoinsViewCache) (parent : UInt256) (res : DisconnectResult)
    (view' : CCoinsViewCache) : Option (Utxo × Bool) → Prop
  | none => res = .DISCONNECT_FAILED
  | some s => res = resultOf s.2 ∧ view'.Ok ∧ view'.utxo = s.1 ∧ view'.hashBlock = parent ∧
      Extends view view'

/-- **`DisconnectBlock`** on any sound view, with the undo data of the block. -/
theorem disconnectBlock_spec
    (hon : E.ConnectsOn chain block vtxundo fees) (hchain : E.LedgerChain chain)
    (hne : chain ≠ []) (hheight : chain.length < 2 ^ 31) (hK : E.secp.Inverts)
    {view : CCoinsViewCache} (hok : view.Ok) {tip : Option CBlockIndex}
    (hstate : E.isCrossedBootstrapBlock tip = true → E.pop.setState (E.tipHash chain) = true) :
    ∃ res view', E.disconnectBlock block (E.blockIndex block chain)
        (some (E.undoWriteToDisk vtxundo (E.tipHash chain))) view tip = .ok (res, view') ∧
      Disconnects view (E.tipHash chain) res view'
        (undoRun (view.utxo, true) (E.blockUndoOps chain.length block.vtx ([] :: vtxundo))) := by
  obtain ⟨parent, rest, rfl⟩ := exists_cons_of_ne_nil hne
  have hhash : E.tipHash (parent :: rest) = E.blockHash parent.header := rfl
  have hread := E.undoReadFromDisk_undoWriteToDisk hK (hon.storable E hchain hheight)
    (E.tipHash (parent :: rest))
  have hlength := hon.txs.length_eq E
  rw [length_cons] at hlength
  have hfits : ∀ u ∈ (block.vtx.zip ([] :: vtxundo)).reverse, UndoFits u.1 u.2 :=
    fun u hu => hon.fits E hchain (mem_reverse.mp hu)
  obtain ⟨res, view', hrun, hres⟩ :=
    E.disconnectTransactions_spec (parent :: rest).length hok hfits true
  rw [← zip_undo hon.well] at hrun
  change Agrees view res view' (undoRun (view.utxo, true)
    (E.blockUndoOps (parent :: rest).length block.vtx ([] :: vtxundo))) at hres
  have hdisconnect : E.disconnectBlock block (E.blockIndex block (parent :: rest))
      (some (E.undoWriteToDisk vtxundo (E.tipHash (parent :: rest)))) view tip =
      E.moveToParent (E.blockIndex parent rest) tip (res, view') := by
    rw [hhash] at hread ⊢
    simp only [disconnectBlock, blockIndex_pprev, tipIndex, blockIndex_getBlockHash, hread,
      hlength, if_true, blockIndex_nHeight, hrun, ok_bind]
  rw [hdisconnect, moveToParent]
  cases hledger : undoRun (view.utxo, true)
      (E.blockUndoOps (parent :: rest).length block.vtx ([] :: vtxundo)) with
  | none =>
    rw [hledger] at hres
    have hres : res = .DISCONNECT_FAILED := hres
    rw [if_pos hres]
    exact ⟨res, view', rfl, hres⟩
  | some s =>
    rw [hledger] at hres
    obtain ⟨rfl, hkeeps, hutxo⟩ := hres
    have hpop : onlyIf (E.isCrossedBootstrapBlock tip)
        (require (E.pop.setState (E.blockIndex parent rest).getBlockHash) (.assertion "ok") :
          Run Unit) = .ok () := by
      rw [onlyIf_eq_ok]
      intro hcrossed
      rw [require_eq_ok]
      exact hstate hcrossed
    rw [if_neg (resultOf_ne_failed _), hpop, ok_bind]
    exact ⟨_, _, rfl, rfl, setBestBlock_ok hkeeps.ok _, hutxo, rfl,
      hkeeps.grows.trans (setBestBlock_extends _ _)⟩

/-! ### Which blocks can be taken back -/

def spentBy (block : CBlock) : List COutPoint := block.vtx.flatMap CTransaction.spent

/-- No coin of height zero is spent, or one stays where `AccessByTxid` looks. -/
def LeavesGenesisCoin (coins : Utxo) (block : CBlock) : Prop :=
  (∀ o ∈ spentBy block, ∀ coin, coins o = some coin → coin.nHeight ≠ 0) ∨
    ∃ o coin, coins o = some coin ∧ coin.nHeight = 0 ∧ o.n < MAX_OUTPUTS_PER_BLOCK ∧
      o ∉ spentBy block

theorem ConnectsOn.mem_blockUndoOps (hon : E.ConnectsOn chain block vtxundo fees) {op : UndoOp}
    (hop : op ∈ E.blockUndoOps chain.length block.vtx ([] :: vtxundo)) :
    (∃ tx ∈ block.vtx, ∃ kv ∈ E.created chain.length tx, op = .remove kv.1 kv.2) ∨
      ∃ o coin, op = .restore o coin ∧ o ∈ spentBy block ∧
        (E.utxoOf chain o = some coin ∨
          ∃ tx ∈ block.vtx, (o, coin) ∈ E.created chain.length tx) := by
  obtain ⟨u, hu, hop⟩ := mem_flatMap.mp hop
  rw [mem_reverse] at hu
  have htx : u.1 ∈ block.vtx := (of_mem_zip hu).1
  rw [undoOps, mem_append] at hop
  rcases hop with hop | hop
  · obtain ⟨kv, hkv, rfl⟩ := mem_map.mp hop
    exact Or.inl ⟨u.1, htx, kv, hkv, rfl⟩
  · obtain ⟨kv, hkv, rfl⟩ := mem_map.mp hop
    rw [mem_reverse] at hkv
    obtain ⟨mid, fee, hmid, hcoins⟩ := hon.txs.mid E hu
    refine Or.inr ⟨kv.1, kv.2, rfl, mem_flatMap.mpr ⟨u.1, htx, (of_mem_zip hkv).1⟩, ?_⟩
    exact hcoins kv.1 kv.2 (hmid.held.mem_zip hkv)

theorem TxsConnect.restore_mem (h : E.TxsConnect nHeight coins vtx vtxundo fees)
    {o : COutPoint} (ho : o ∈ vtx.flatMap CTransaction.spent) :
    ∃ coin, .restore o coin ∈ E.blockUndoOps nHeight vtx vtxundo := by
  induction h with
  | nil => cases ho
  | @cons coins tx rest vprevout vtxundo fee fees htx _ ih =>
    rw [blockUndoOps_cons]
    rw [flatMap_cons, mem_append] at ho
    rcases ho with ho | ho
    · rw [← htx.held.map_fst_zip] at ho
      obtain ⟨kv, hkv, rfl⟩ := mem_map.mp ho
      refine ⟨kv.2, mem_append_right _ (mem_append_right _ ?_)⟩
      exact mem_map.mpr ⟨kv, mem_reverse.mpr hkv, rfl⟩
    · obtain ⟨coin, hmem⟩ := ih ho
      exact ⟨coin, mem_append_left _ hmem⟩

section Block

variable {chain : List CBlock} {block : CBlock} {vtxundo : CBlockUndo} {fees : Int}

theorem height_ne_zero_of_created (hne : chain ≠ []) {tx : CTransaction} {kv : COutPoint × Coin}
    (h : kv ∈ E.created chain.length tx) : kv.2.nHeight ≠ 0 := by
  rw [(mem_coinsFrom h).2.2.2.2.1]
  exact fun hlength => hne (length_eq_zero_iff.mp hlength)

theorem ConnectsOn.exact_of_not_spent (hon : E.ConnectsOn chain block vtxundo fees)
    (hne : chain ≠ [])
    (hspent : ∀ o ∈ spentBy block, ∀ coin, E.utxoOf chain o = some coin → coin.nHeight ≠ 0) :
    ∀ op ∈ E.blockUndoOps chain.length block.vtx ([] :: vtxundo), op.Exact fun _ => True := by
  intro op hop
  rcases hon.mem_blockUndoOps E hop with ⟨_, _, kv, _, rfl⟩ | ⟨o, coin, rfl, ho, hcoin⟩
  · exact fun _ _ => trivial
  · intro coins _
    have hheight : coin.nHeight ≠ 0 := by
      rcases hcoin with hcoin | ⟨tx, _, hcreated⟩
      · exact hspent o ho coin hcoin
      · exact E.height_ne_zero_of_created hne hcreated
    exact ⟨restoredCoin_of_ne_zero hheight coins o, trivial⟩

section GenesisCoin

variable {t : CTransaction} {o₀ : COutPoint} {coin₀ : Coin}
  (hon : E.ConnectsOn chain block vtxundo fees) (hchain : E.LedgerChain chain)
  (htxid : E.GenesisTxid (block :: chain)) (ht : genesisTx chain = some t)
  (hcoin₀ : E.utxoOf chain o₀ = some coin₀) (hheight₀ : coin₀.nHeight = 0)

include hon hchain htxid ht hcoin₀ hheight₀

/-- While one is left, what is restored there has height zero. -/
theorem ConnectsOn.restored_iff {o : COutPoint} {coin : Coin}
    (hop : .restore o coin ∈ E.blockUndoOps chain.length block.vtx ([] :: vtxundo)) :
    (coin.nHeight = 0 ↔ o.hash = E.txid t) ∧
      (o.hash = E.txid t → coin.fCoinBase = t.isCoinBase) := by
  have hne : chain ≠ [] := by
    rintro rfl
    cases hcoin₀
  have honly := hchain.onlyGenesis E htxid.tail ht hcoin₀ hheight₀
  have hhash₀ := (hchain.genesis_hash E ht hcoin₀ hheight₀).1
  rcases hon.mem_blockUndoOps E hop with ⟨_, _, kv, _, heq⟩ | ⟨o', coin', heq, -, hcoin⟩
  · cases heq
  cases heq
  rcases hcoin with hcoin | ⟨tx, htx, hcreated⟩
  · exact ⟨⟨fun hheight => (hchain.genesis_hash E ht hcoin hheight).1,
      fun hhash => (honly o coin hhash hcoin).1⟩, fun hhash => (honly o coin hhash hcoin).2⟩
  · have hhash : o.hash ≠ E.txid t := by
      rw [(mem_coinsFrom hcreated).1, ← hhash₀]
      exact hon.txid_ne E hchain htxid hcoin₀ hheight₀ htx
    exact ⟨⟨fun hheight => absurd hheight (E.height_ne_zero_of_created hne hcreated),
      fun h => absurd h hhash⟩, fun h => absurd h hhash⟩

theorem ConnectsOn.faithful :
    ∀ op ∈ E.blockUndoOps chain.length block.vtx ([] :: vtxundo),
      op.Faithful (E.OnlyGenesis t) := by
  intro op hop
  cases op with
  | remove out created =>
    intro coins honly o c hhash hc
    by_cases heq : o = out
    · rw [heq, Function.update_self] at hc
      cases hc
    · rw [Function.update_of_ne heq] at hc
      exact honly o c hhash hc
  | restore out undo =>
    obtain ⟨hzero, hcoinbase⟩ := hon.restored_iff E hchain htxid ht hcoin₀ hheight₀ hop
    intro coins honly
    constructor
    · intro coin hrestored
      by_cases hheight : undo.nHeight = 0
      · -- the metadata come from another output of the genesis transaction
        have hhash := hzero.mp hheight
        rw [restoredCoin, if_pos hheight] at hrestored
        obtain ⟨alternate, halternate, rfl⟩ := Option.map_eq_some_iff.mp hrestored
        obtain ⟨i, hi⟩ := alternateFrom_mem halternate
        obtain ⟨hheight', hcoinbase'⟩ := honly ⟨out.hash, i⟩ alternate hhash hi
        rw [hheight', hcoinbase', ← hcoinbase hhash, ← hheight]
      · rw [restoredCoin_of_ne_zero hheight, Option.some.injEq] at hrestored
        exact hrestored.symm
    · intro o c hhash hc
      by_cases heq : o = out
      · subst heq
        rw [Function.update_self, Option.some.injEq] at hc
        subst hc
        exact ⟨hzero.mpr hhash, hcoinbase hhash⟩
      · rw [Function.update_of_ne heq] at hc
        exact honly o c hhash hc

/-- That coin, or one restored before, has the metadata that the others need. -/
theorem ConnectsOn.exact_of_left (hn : o₀.n < MAX_OUTPUTS_PER_BLOCK) (hleft : o₀ ∉ spentBy block) :
    ∀ op ∈ E.blockUndoOps chain.length block.vtx ([] :: vtxundo),
      op.Exact fun coins => coins o₀ = some coin₀ ∧ E.OnlyGenesis t coins := by
  have hhash₀ := (hchain.genesis_hash E ht hcoin₀ hheight₀).1
  intro op hop
  have hfaithful := hon.faithful E hchain htxid ht hcoin₀ hheight₀ op hop
  rcases hon.mem_blockUndoOps E hop with ⟨tx, htx, kv, hkv, rfl⟩ | ⟨o, coin, rfl, ho, -⟩
  · rintro coins ⟨hthere, honly⟩
    refine ⟨?_, hfaithful coins honly⟩
    rw [Function.update_of_ne]
    · exact hthere
    · rintro rfl
      exact hon.txid_ne E hchain htxid hcoin₀ hheight₀ htx (mem_coinsFrom hkv).1.symm
  · obtain ⟨hzero, -⟩ := hon.restored_iff E hchain htxid ht hcoin₀ hheight₀ hop
    rintro coins ⟨hthere, honly⟩
    obtain ⟨hsame, hkept⟩ := hfaithful coins honly
    have hrestored : restoredCoin coins o coin ≠ none := by
      unfold restoredCoin
      split
      · rename_i hheight
        rw [ne_eq, Option.map_eq_none_iff, alternateFrom_eq_none]
        intro hnone
        have hgone := hnone o₀.n (Nat.zero_le _) (by omega)
        rw [hzero.mp hheight, ← hhash₀] at hgone
        exact Option.some_ne_none _ (hthere.symm.trans hgone)
      · exact Option.some_ne_none _
    obtain ⟨coin', hcoin'⟩ := Option.ne_none_iff_exists'.mp hrestored
    refine ⟨by rw [hcoin', hsame coin' hcoin'], ?_, hkept⟩
    rw [Function.update_of_ne]
    · exact hthere
    · rintro rfl
      exact hleft ho

end GenesisCoin

theorem ConnectsOn.undoRun_of_exact (hon : E.ConnectsOn chain block vtxundo fees)
    {Inv : Utxo → Prop} (hinv : Inv (E.utxoOf (block :: chain)))
    (hexact : ∀ op ∈ E.blockUndoOps chain.length block.vtx ([] :: vtxundo), op.Exact Inv) :
    undoRun (E.utxoOf (block :: chain), true)
      (E.blockUndoOps chain.length block.vtx ([] :: vtxundo)) = some (E.utxoOf chain, true) := by
  have hnodup : ∀ tx ∈ block.vtx, tx.spent.Nodup :=
    fun tx htx => (hon.well.txs tx htx).nodup.sublist tx.spent_sublist
  rw [VBitcoin.undoRun_of_exact hinv hexact, Bool.true_and]
  exact congrArg some (Prod.ext (hon.txs.replay_undo E) (hon.txs.clean E hnodup))

theorem ConnectsOn.undoRun_of_leaves (hon : E.ConnectsOn chain block vtxundo fees)
    (hchain : E.LedgerChain chain) (hne : chain ≠ []) (htxid : E.GenesisTxid (block :: chain))
    (hleaves : LeavesGenesisCoin (E.utxoOf chain) block) :
    undoRun (E.utxoOf (block :: chain), true)
      (E.blockUndoOps chain.length block.vtx ([] :: vtxundo)) = some (E.utxoOf chain, true) := by
  rcases hleaves with hspent | ⟨o₀, coin₀, hcoin₀, hheight₀, hn, hleft⟩
  · exact hon.undoRun_of_exact E trivial (hon.exact_of_not_spent E hne hspent)
  · obtain ⟨t, ht, hgenesis⟩ := hchain.mem_genesis E hcoin₀ hheight₀
    have hcoin₀' : E.utxoOf (block :: chain) o₀ = some coin₀ := by
      rw [← hcoin₀]
      refine replay_of_notMem (fun hmem => ?_) (E.utxoOf chain)
      rcases E.mem_keys_txLogs.mp hmem with hspent | ⟨tx, htx, hcreated⟩
      · exact hleft hspent
      · obtain ⟨kv, hkv, rfl⟩ := mem_map.mp hcreated
        exact hon.txid_ne E hchain htxid hcoin₀ hheight₀ htx (mem_coinsFrom hkv).1.symm
    refine hon.undoRun_of_exact E ⟨hcoin₀', ?_⟩
      (hon.exact_of_left E hchain htxid ht hcoin₀ hheight₀ hn hleft)
    exact (LedgerChain.cons hchain hon).onlyGenesis E htxid (by rwa [genesisTx_cons hne]) hcoin₀'
      hheight₀

/-- **Any other block is not.** -/
theorem ConnectsOn.undoRun_of_not_leaves (hon : E.ConnectsOn chain block vtxundo fees)
    (hchain : E.LedgerChain chain) (htxid : E.GenesisTxid (block :: chain))
    (hleaves : ¬ LeavesGenesisCoin (E.utxoOf chain) block) :
    undoRun (E.utxoOf (block :: chain), true)
      (E.blockUndoOps chain.length block.vtx ([] :: vtxundo)) = none := by
  simp only [LeavesGenesisCoin, not_or, not_forall, not_exists, not_and, not_not] at hleaves
  obtain ⟨⟨o₀, ho₀, coin₀, hcoin₀, hheight₀⟩, hspent⟩ := hleaves
  obtain ⟨t, ht, hgenesis⟩ := hchain.mem_genesis E hcoin₀ hheight₀
  have honly := hchain.onlyGenesis E htxid.tail ht hcoin₀ hheight₀
  have hhash₀ := (hchain.genesis_hash E ht hcoin₀ hheight₀).1
  refine undoRun_eq_none (E.txid t) (fun i hi => ?_)
    (fun _ _ hop => (hon.restored_iff E hchain htxid ht hcoin₀ hheight₀ hop).1) ?_ true
  · -- what the block left would have been created by it or have height zero
    by_contra hsome
    obtain ⟨coin, hcoin⟩ := Option.ne_none_iff_exists'.mp hsome
    rcases E.mem_created_or hcoin with ⟨tx, htx, hcreated⟩ | ⟨hbefore, hnot⟩
    · refine hon.txid_ne E hchain htxid hcoin₀ hheight₀ htx ?_
      rw [hhash₀, ← (mem_coinsFrom hcreated).1]
    · exact hnot (hspent ⟨E.txid t, i⟩ coin hbefore (honly _ coin rfl hbefore).1 hi)
  · obtain ⟨coin, hop⟩ := hon.txs.restore_mem E ho₀
    obtain ⟨hzero, -⟩ := hon.restored_iff E hchain htxid ht hcoin₀ hheight₀ hop
    exact ⟨o₀, coin, hop, hzero.mpr hhash₀⟩

end Block

end NodeEnv

end VBitcoin
