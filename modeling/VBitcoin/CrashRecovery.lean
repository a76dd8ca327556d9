import VBitcoin.Regtest
import VBitcoin.ReplayBlocks

/-!
**The coins after `ReplayBlocks`** — a flush was interrupted, and each outpoint holds what it
held under the old tip or the new one.  With an old tip the database is repaired; only coins of
height zero need a second look (`RollsBack.repairs`).  Without one the loop starts at height 1,
and the coins of genesis come back only if they had been written.
-/

namespace VBitcoin

open WriteLog List

/-- Two coin sets that differ only where the second has a coin of height zero. -/
def SameButZero (coins exact : Utxo) : Prop :=
  ∀ o, coins o = exact o ∨ ∃ coin, exact o = some coin ∧ coin.nHeight = 0

theorem SameButZero.refl (coins : Utxo) : SameButZero coins coins := fun _ => Or.inl rfl

theorem SameButZero.update {coins exact : Utxo} (h : SameButZero coins exact) (out : COutPoint)
    {value value' : Option Coin}
    (hvalue : value = value' ∨ ∃ coin, value' = some coin ∧ coin.nHeight = 0) :
    SameButZero (Function.update coins out value) (Function.update exact out value') := by
  intro o
  by_cases ho : o = out
  · subst ho
    rw [Function.update_self, Function.update_self]
    exact hvalue
  · rw [Function.update_of_ne ho, Function.update_of_ne ho]
    exact h o

/-- Taking a block back differs from the writes it should be in such coins only. -/
theorem SameButZero.undoRun : ∀ {ops : List UndoOp} {coins exact : Utxo} {fClean : Bool}
    {s : Utxo × Bool}, SameButZero coins exact → VBitcoin.undoRun (coins, fClean) ops = some s →
      SameButZero s.1 (replay exact (ops.map UndoOp.write))
  | [], _, _, _, _, h, hrun => by
      cases hrun
      exact h
  | .remove out created :: ops, coins, exact, fClean, s, h, hrun => by
      rw [VBitcoin.undoRun, undoStep, Option.bind_some] at hrun
      have hrest := (h.update out (Or.inl rfl)).undoRun hrun
      exact hrest
  | .restore out undo :: ops, coins, exact, fClean, s, h, hrun => by
      rw [VBitcoin.undoRun, undoStep] at hrun
      cases hrestored : restoredCoin coins out undo with
      | none =>
        rw [hrestored] at hrun
        cases hrun
      | some coin =>
        rw [hrestored, Option.map_some, Option.bind_some] at hrun
        have hcoin : some coin = some undo ∨ ∃ c, some undo = some c ∧ c.nHeight = 0 := by
          by_cases hheight : undo.nHeight = 0
          · exact Or.inr ⟨undo, rfl, hheight⟩
          · rw [restoredCoin_of_ne_zero hheight] at hrestored
            exact Or.inl hrestored.symm
        have hrest := (h.update out hcoin).undoRun hrun
        exact hrest

theorem keys_coinsFrom (txid : UInt256) (f f' : Bool) (h h' : Nat) : ∀ (vout : List CTxOut) (n : Nat),
    (coinsFrom txid f h n vout).map Prod.fst = (coinsFrom txid f' h' n vout).map Prod.fst
  | [], _ => rfl
  | txout :: rest, n => by
      cases hscript : isUnspendable txout.scriptPubKey with
      | true =>
        rw [coinsFrom_cons_of_unspendable hscript, coinsFrom_cons_of_unspendable hscript]
        exact keys_coinsFrom txid f f' h h' rest (n + 1)
      | false =>
        rw [coinsFrom_cons_of_spendable hscript, coinsFrom_cons_of_spendable hscript,
          map_cons, map_cons, keys_coinsFrom txid f f' h h' rest (n + 1)]

namespace NodeEnv

variable (E : NodeEnv)

/-! ### Coins at outputs of the genesis transaction -/

/-- Coins with the hash of a transaction are at outputs that make coins. -/
def AtOutputs (t : CTransaction) (coins : Utxo) : Prop :=
  ∀ o coin, o.hash = E.txid t → coins o = some coin → o ∈ (E.created 0 t).map Prod.fst

variable {chain fork : List CBlock} {coins : Utxo}

variable {t : CTransaction}

theorem LedgerChain.atOutputs (h : E.LedgerChain chain)
    (htxid : E.GenesisTxid chain) (ht : genesisTx chain = some t) :
    E.AtOutputs t (E.utxoOf chain) := by
  induction h with
  | nil => cases ht
  | @cons chain block vtxundo fees hchain hon ih =>
    intro o coin hhash hcoin
    rcases E.mem_created_or hcoin with ⟨tx, htx, hcreated⟩ | ⟨hbefore, -⟩
    · have hsame : E.txid tx = E.txid t := (mem_coinsFrom hcreated).1.symm.trans hhash
      have hvout := htxid t ht block mem_cons_self tx htx hsame
      rw [created, ← hsame, ← hvout, keys_coinsFrom _ t.isCoinBase tx.isCoinBase 0 chain.length]
      exact mem_map.mpr ⟨(o, coin), hcreated, rfl⟩
    · have hne : chain ≠ [] := by
        rintro rfl
        cases hbefore
      rw [genesisTx_cons hne] at ht
      exact ih htxid.tail ht o coin hhash hbefore

theorem onlyGenesis_cons {block : CBlock}
    (hother : ∀ tx ∈ block.vtx, E.txid tx ≠ E.txid t) (honly : E.OnlyGenesis t (E.utxoOf chain)) :
    E.OnlyGenesis t (E.utxoOf (block :: chain)) := by
  intro o coin hhash hcoin
  rcases E.mem_created_or hcoin with ⟨tx, htx, hcreated⟩ | ⟨hbefore, -⟩
  · exact absurd ((mem_coinsFrom hcreated).1.symm.trans hhash) (hother tx htx)
  · exact honly o coin hhash hbefore

/-! ### Rolling back on the ledger -/

theorem TxsConnect.created_mem_undo {nHeight : Nat} {vtx : List CTransaction}
    {vtxundo : List CTxUndo} {fees : Int} (h : E.TxsConnect nHeight coins vtx vtxundo fees)
    {tx : CTransaction} (htx : tx ∈ vtx) {o : COutPoint}
    (ho : o ∈ (E.created nHeight tx).map Prod.fst) :
    o ∈ keys ((E.blockUndoOps nHeight vtx vtxundo).map UndoOp.write) := by
  induction h with
  | nil => cases htx
  | @cons coins tx' rest vprevout vtxundo fee fees _ _ ih =>
    rw [blockUndoOps_cons, map_append, WriteLog.keys_append, mem_append]
    rcases mem_cons.mp htx with rfl | htx
    · rw [map_write_undoOps, undo, WriteLog.keys_append, keys_removes]
      exact Or.inr (mem_append_left _ ho)
    · exact Or.inl (ih htx)

section Block

variable {chain : List CBlock} {block : CBlock} {vtxundo : CBlockUndo} {fees : Int}

/-- The writes that take a block back, where every coin is restored as it was. -/
def undoLog (chain : List CBlock) (block : CBlock) (vtxundo : CBlockUndo) : Log COutPoint Coin :=
  (E.blockUndoOps chain.length block.vtx ([] :: vtxundo)).map UndoOp.write

theorem ConnectsOn.replay_undoLog (hon : E.ConnectsOn chain block vtxundo fees) :
    replay (E.utxoOf (block :: chain)) (E.undoLog chain block vtxundo) = E.utxoOf chain :=
  hon.txs.replay_undo E

theorem ConnectsOn.replay_undo_cases (hon : E.ConnectsOn chain block vtxundo fees) (coins : Utxo)
    (o : COutPoint) :
    replay coins (E.undoLog chain block vtxundo) o = E.utxoOf chain o ∨
      (o ∉ keys (E.undoLog chain block vtxundo) ∧
        replay coins (E.undoLog chain block vtxundo) o = coins o) := by
  by_cases ho : o ∈ keys (E.undoLog chain block vtxundo)
  · left
    rw [replay_of_mem ho coins (E.utxoOf (block :: chain)), hon.replay_undoLog]
  · exact Or.inr ⟨ho, replay_of_notMem ho coins⟩

variable {t : CTransaction} {coins : Utxo}

theorem ConnectsOn.atOutputs_replay (hon : E.ConnectsOn chain block vtxundo fees)
    (hbelow : E.AtOutputs t (E.utxoOf chain)) (hcoins : E.AtOutputs t coins) :
    E.AtOutputs t (replay coins (E.undoLog chain block vtxundo)) := by
  intro o coin hhash hcoin
  rcases hon.replay_undo_cases E coins o with heq | ⟨-, heq⟩
  · exact hbelow o coin hhash (heq ▸ hcoin)
  · exact hcoins o coin hhash (heq ▸ hcoin)

/-- Taking a block back leaves only coins of genesis at its transaction's hash. -/
theorem ConnectsOn.onlyGenesis_replay (hon : E.ConnectsOn chain block vtxundo fees)
    (hne : chain ≠ []) (htxid : E.GenesisTxid (block :: chain))
    (ht : genesisTx chain = some t) (houtputs : E.AtOutputs t coins)
    (hcoins : E.OnlyGenesis t (E.utxoOf (block :: chain)) → E.OnlyGenesis t coins)
    (hbelow : E.OnlyGenesis t (E.utxoOf chain)) :
    E.OnlyGenesis t (replay coins (E.undoLog chain block vtxundo)) := by
  intro o coin hhash hcoin
  rcases hon.replay_undo_cases E coins o with heq | ⟨hkept, heq⟩
  · exact hbelow o coin hhash (heq ▸ hcoin)
  · rw [heq] at hcoin
    refine hcoins (E.onlyGenesis_cons (fun tx htx hsame => ?_) hbelow) o coin hhash hcoin
    have hvout := htxid t (by rwa [genesisTx_cons hne]) block mem_cons_self tx htx hsame
    refine hkept (hon.txs.created_mem_undo E htx ?_)
    have hmem := houtputs o coin hhash hcoin
    rwa [created, ← hsame, ← hvout,
      keys_coinsFrom _ t.isCoinBase tx.isCoinBase 0 chain.length] at hmem

theorem ConnectsOn.undoRun_eq_replay (hon : E.ConnectsOn chain block vtxundo fees)
    (hchain : E.LedgerChain chain) (hne : chain ≠ []) (htxid : E.GenesisTxid (block :: chain))
    (ht : genesisTx chain = some t) {s : Utxo × Bool}
    (hcoins : E.OnlyGenesis t (E.utxoOf (block :: chain)) → E.OnlyGenesis t coins)
    (hrun : undoRun (coins, true) (E.blockUndoOps chain.length block.vtx ([] :: vtxundo)) =
      some s) :
    s.1 = replay coins (E.undoLog chain block vtxundo) := by
  by_cases hzero : ∃ o coin, E.utxoOf chain o = some coin ∧ coin.nHeight = 0
  · obtain ⟨o, coin, hcoin, hheight⟩ := hzero
    have hbelow := hchain.onlyGenesis E htxid.tail ht hcoin hheight
    have hhash := (hchain.genesis_hash E ht hcoin hheight).1
    have hother : ∀ tx ∈ block.vtx, E.txid tx ≠ E.txid t := by
      intro tx htx
      rw [← hhash]
      exact hon.txid_ne E hchain htxid hcoin hheight htx
    exact replay_of_undoRun (hcoins (E.onlyGenesis_cons hother hbelow))
      (hon.faithful E hchain htxid ht hcoin hheight) hrun
  · have hspent : ∀ o ∈ spentBy block, ∀ coin, E.utxoOf chain o = some coin → coin.nHeight ≠ 0 :=
      fun o _ coin hcoin hheight => hzero ⟨o, coin, hcoin, hheight⟩
    rw [VBitcoin.undoRun_of_exact trivial (hon.exact_of_not_spent E hne hspent),
      Option.some.injEq] at hrun
    rw [← hrun]
    rfl

end Block

/-- Wrong at coins of height zero at most, and only with a twin of genesis. -/
theorem RollsBack.writes {coins' : Utxo} (h : E.RollsBack fork chain coins coins') :
    ∃ back : Log COutPoint Coin, replay (E.utxoOf chain) back = E.utxoOf fork ∧
      (∀ exact, SameButZero coins exact → SameButZero coins' (replay exact back)) ∧
      (∀ t, genesisTx chain = some t → E.GenesisTxid chain → E.AtOutputs t coins →
        (E.OnlyGenesis t (E.utxoOf chain) → E.OnlyGenesis t coins) →
          coins' = replay coins back) := by
  induction h with
  | here coins => exact ⟨[], rfl, fun _ h => h, fun _ _ _ _ _ => rfl⟩
  | @step block chain vtxundo fees coins mid coins' clean hchain hon hne hrun _ ih =>
    obtain ⟨back, hback, hzero, hwrites⟩ := ih
    refine ⟨E.undoLog chain block vtxundo ++ back, ?_, fun exact hsame => ?_,
      fun t ht htxid houtputs honly => ?_⟩
    · rw [replay_append, hon.replay_undoLog, hback]
    · rw [replay_append]
      exact hzero _ (hsame.undoRun hrun)
    · rw [genesisTx_cons hne] at ht
      have hmid : mid = _ := hon.undoRun_eq_replay E hchain hne htxid ht honly hrun
      rw [replay_append, ← hmid]
      refine hwrites t ht htxid.tail ?_ fun hbelow => ?_
      · rw [hmid]
        exact hon.atOutputs_replay E (hchain.atOutputs E htxid.tail ht) houtputs
      · rw [hmid]
        exact hon.onlyGenesis_replay E hne htxid ht houtputs honly hbelow

theorem genesisTx_append (h : fork ≠ []) (branch : List CBlock) :
    genesisTx (branch ++ fork) = genesisTx fork := by
  induction branch with
  | nil => rfl
  | cons block branch ih =>
    rw [cons_append, genesisTx_cons, ih]
    exact fun hnil => h (append_eq_nil_iff.mp hnil).2

/-- Back to the fork and on with the new branch gives the new set. -/
theorem RollsBack.repairs {branch branch' : List CBlock} {mixed : Utxo}
    (h : E.RollsBack fork (branch ++ fork) mixed coins) (hfork : fork ≠ [])
    (hold : E.LedgerChain (branch ++ fork)) (hnew : E.LedgerChain (branch' ++ fork))
    (htxid : E.GenesisTxid (branch ++ fork)) (htxid' : E.GenesisTxid (branch' ++ fork))
    (hmixed : Mixed (E.utxoOf (branch ++ fork)) (E.utxoOf (branch' ++ fork)) mixed) :
    replay coins (E.branchLog fork branch') = E.utxoOf (branch' ++ fork) := by
  obtain ⟨back, hback, hzero, hwrites⟩ := h.writes E
  have hexact : replay (replay mixed back) (E.branchLog fork branch') =
      E.utxoOf (branch' ++ fork) :=
    replay_mixed hmixed (fun o _ => congrFun hback o) (E.utxoOf_append fork branch').symm
  funext o
  by_cases ho : o ∈ keys (E.branchLog fork branch')
  · rw [← hexact]
    exact replay_of_mem ho _ _
  · have hnewo := congrFun hexact o
    rw [replay_of_notMem ho] at hnewo
    rw [replay_of_notMem ho]
    rcases hzero mixed (SameButZero.refl mixed) o with hsame | ⟨coin, hcoin, hheight⟩
    · exact hsame.trans hnewo
    · -- a coin of height zero survives in the new set
      rw [hcoin, eq_comm] at hnewo
      obtain ⟨t, ht', -⟩ := hnew.mem_genesis E hnewo hheight
      have ht : genesisTx (branch ++ fork) = some t := by
        rw [genesisTx_append hfork] at ht' ⊢
        exact ht'
      have honly' := hnew.onlyGenesis E htxid' ht' hnewo hheight
      rw [hwrites t ht htxid ?_ ?_, hcoin, hnewo]
      · intro k c hhash hc
        rcases hmixed k with hk | hk
        · exact hold.atOutputs E htxid ht k c hhash (hk ▸ hc)
        · exact hnew.atOutputs E htxid' ht' k c hhash (hk ▸ hc)
      · intro honly k c hhash hc
        rcases hmixed k with hk | hk
        · exact honly k c hhash (hk ▸ hc)
        · exact honly' k c hhash (hk ▸ hc)

/-! ### The code -/

section Code

variable {S : BlockStore} {db : CCoinsViewDB}

/-- The end of `ReplayBlocks`, if all blocks of the branch can be read. -/
theorem replayFrom_spec {tip : CBlock} {chain branch fork : List CBlock}
    (hstore : E.Holds S (tip :: chain)) (hledger : E.LedgerChain (tip :: chain))
    (hnull : E.blockHash tip.header ≠ 0)
    (haccepts : db.headBlocks.head? = some (E.blockHash tip.header))
    {pindexOld pindexFork : Option CBlockIndex} (hlevel :
      (pindexFork.map CBlockIndex.nHeight).getD 0 + 1 = fork.length)
    (hchain : tip :: chain = branch ++ fork) {c : CCoinsViewCache}
    (hback : E.rollback S pindexFork (CBlockIndex.chainOf pindexOld) { base := .db db } =
      .ok (some c)) (hok : c.Ok) (hbase : c.base = .db db) :
    (E.branchReadable S fork branch = false →
      E.replayFrom S db pindexOld pindexFork (E.blockIndex tip chain) = .ok (false, .db db)) ∧
    (E.branchReadable S fork branch = true → ∃ view,
      E.replayFrom S db pindexOld pindexFork (E.blockIndex tip chain) = .ok (true, view) ∧
        view.utxo = replay c.utxo (E.branchLog fork branch) ∧
        view.bestBlock = E.blockHash tip.header) := by
  have hrange : (E.blockIndex tip chain).nHeight - (pindexFork.map CBlockIndex.nHeight).getD 0 =
      branch.length := by
    have hlength := congrArg List.length hchain
    rw [length_cons, length_append] at hlength
    rw [blockIndex_nHeight]
    omega
  obtain ⟨hfails, hworks⟩ := E.rollforward_spec S hstore.block
    (fun block hblock tx htx txout => ((hledger.wellFormed E hblock).txs tx htx).not_isNull)
    branch hok hchain
  unfold replayFrom
  simp only [hback, ok_bind, hlevel, hrange]
  constructor
  · intro hread
    rw [hfails hread]
    rfl
  · intro hread
    obtain ⟨c', hrun, hkeeps, hutxo⟩ := hworks hread
    have hflush : (c'.setBestBlock (E.blockHash tip.header)).base.acceptsBestBlock
        (E.blockHash tip.header) = true := by
      rw [show (c'.setBestBlock (E.blockHash tip.header)).base = .db db from
        hkeeps.grows.base_db db hbase]
      simp only [CCoinsView.acceptsBestBlock, haccepts, UInt256.isNull,
        beq_eq_false_iff_ne.mpr hnull, beq_self_eq_true, Bool.or_true, Bool.not_false,
        Bool.true_and]
    obtain ⟨c'', hflushed, -, -, -, -, hcoins, hbest⟩ :=
      flush_spec (setBestBlock_ok hkeeps.ok (E.blockHash tip.header)) hflush
    refine ⟨c''.base, ?_, ?_, hbest (beq_eq_false_iff_ne.mpr hnull)⟩
    · simp only [hrun, ok_bind, blockIndex_getBlockHash, hflushed]
      rfl
    · rw [hcoins, setBestBlock_utxo, hutxo]

/-- A flush from the coins of `old` to those of `new` broke off. -/
structure Interrupted (S : BlockStore) (old new : List CBlock) (viewOld viewNew : CCoinsViewCache)
    (db : CCoinsViewDB) : Prop where
  old_chain : E.ConnectsTo old viewOld
  new_chain : E.ConnectsTo new viewNew
  new_ne_nil : new ≠ []
  heads : db.headBlocks = [E.tipHash new, E.tipHash old]
  /-- Each outpoint on its own was written or not. -/
  mixed : Mixed viewOld.utxo viewNew.utxo db.coins
  old_stored : E.Holds S old
  new_stored : E.Holds S new
  old_hashes : E.ChainHashes old
  new_hashes : E.ChainHashes new
  old_txid : E.GenesisTxid old
  new_txid : E.GenesisTxid new
  old_height : old.length < 2 ^ 31

/-- If `ReplayBlocks` returns true, the database is at the new tip. -/
def Recovers (S : BlockStore) (db : CCoinsViewDB) (new : List CBlock) (viewNew : CCoinsViewCache) :
    Prop :=
  ∀ view, E.replayBlocks S db = .ok (true, view) →
    view.utxo = viewNew.utxo ∧ view.bestBlock = E.tipHash new

section Interrupted

variable {old new : List CBlock} {viewOld viewNew : CCoinsViewCache}

theorem Interrupted.root (h : E.Interrupted S old new viewOld viewNew db) (hold : old ≠ []) :
    old.getLast? = new.getLast? := by
  obtain ⟨branch, g, rfl, hg⟩ := h.old_chain.root E hold
  obtain ⟨branch', g', rfl, hg'⟩ := h.new_chain.root E h.new_ne_nil
  have hindex := h.old_stored.index g [] (suffix_append _ _)
  have hindex' := h.new_stored.index g' [] (suffix_append _ _)
  rw [hg, ← hg', hindex', Option.some.injEq] at hindex
  have hblock := h.old_stored.block g [] (suffix_append _ _)
  rw [← hindex, h.new_stored.block g' [] (suffix_append _ _)] at hblock
  simp [hblock]

variable {branch : List CBlock} {genesis : CBlock}

theorem Interrupted.replay_first (h : E.Interrupted S [] new viewOld viewNew db)
    (hledger : E.LedgerChain new) (hnew : new = branch ++ [genesis]) :
    (E.branchReadable S [genesis] branch = false → E.replayBlocks S db = .ok (false, .db db)) ∧
    (E.branchReadable S [genesis] branch = true → ∃ view, E.replayBlocks S db = .ok (true, view) ∧
      view.utxo = replay db.coins (E.branchLog [genesis] branch) ∧
      view.bestBlock = E.tipHash new) := by
  have hheads := h.heads
  obtain ⟨n, new', rfl⟩ := exists_cons_of_ne_nil h.new_ne_nil
  have hreplay : E.replayBlocks S db = E.replayFrom S db none none (E.blockIndex n new') := by
    unfold replayBlocks
    rw [hheads]
    simp only [tipHash, tipIndex, Option.map_some, Option.map_none, Option.getD_some,
      Option.getD_none, blockIndex_getBlockHash, h.new_stored.index n new' (suffix_refl _)]
    rfl
  rw [hreplay]
  exact E.replayFrom_spec h.new_stored hledger (h.new_hashes.not_null n mem_cons_self)
    (by rw [hheads]; rfl) rfl hnew (c := { base := .db db }) rfl ⟨trivial, CacheOk.empty _⟩ rfl

theorem Interrupted.recovers (h : E.Interrupted S old new viewOld viewNew db)
    (hsecp : E.secp.Inverts) (hold : old ≠ []) : E.Recovers S db new viewNew := by
  obtain ⟨hledgerO, hviewO⟩ := h.old_chain.ledger E h.old_hashes
  obtain ⟨hledgerN, hviewN⟩ := h.new_chain.ledger E h.new_hashes
  have hroot := h.root E hold
  have hmixed := h.mixed
  rw [hviewO.utxo, hviewN.utxo] at hmixed
  have hheads := h.heads
  obtain ⟨o, old', rfl⟩ := exists_cons_of_ne_nil hold
  obtain ⟨n, new', rfl⟩ := exists_cons_of_ne_nil h.new_ne_nil
  have hnullO : E.blockHash o.header ≠ 0 := h.old_hashes.not_null o mem_cons_self
  have hnullN : E.blockHash n.header ≠ 0 := h.new_hashes.not_null n mem_cons_self
  obtain ⟨fork, hfork, ⟨branch, hbranch⟩, ⟨branch', hbranch'⟩, hlca⟩ :=
    E.lastCommonAncestor_spec h.old_stored h.new_stored hroot
  obtain ⟨f, fork', rfl⟩ := exists_cons_of_ne_nil hfork
  have hreplay : E.replayBlocks S db = E.replayFrom S db (some (E.blockIndex o old'))
      (E.tipIndex (f :: fork')) (E.blockIndex n new') := by
    unfold replayBlocks
    rw [hheads]
    simp only [tipHash, tipIndex, Option.map_some, Option.getD_some, blockIndex_getBlockHash,
      h.new_stored.index n new' (suffix_refl _),
      h.old_stored.index o old' (suffix_refl _), UInt256.isNull,
      beq_eq_false_iff_ne.mpr hnullO, Bool.false_eq_true, if_false, hlca, ok_bind,
      Option.isSome_some, require_true]
  intro view hrun
  rw [hreplay] at hrun
  have hentries : CBlockIndex.chainOf (some (E.blockIndex o old')) =
      E.entriesOf (branch ++ f :: fork') := by
    rw [hbranch]
    rfl
  rcases E.rollback_spec h.old_stored h.old_hashes h.old_height hsecp hfork branch
    (c := { base := .db db }) ⟨trivial, CacheOk.empty _⟩ (hbranch ▸ suffix_refl _)
    with hfails | ⟨c, hback, hok, hgrows, hrolls⟩
  · rw [replayFrom, hentries, hfails] at hrun
    cases hrun
  · rw [← hentries] at hback
    obtain ⟨hunread, hread⟩ := E.replayFrom_spec h.new_stored hledgerN hnullN
      (by rw [hheads]; rfl) (by rw [tipIndex, Option.map_some, blockIndex_nHeight]; rfl)
      hbranch'.symm hback
      hok (hgrows.base_db db rfl)
    cases hreadable : E.branchReadable S (f :: fork') branch' with
    | false =>
      rw [hunread hreadable] at hrun
      cases hrun
    | true =>
      obtain ⟨view', hrun', hutxo, hbest⟩ := hread hreadable
      rw [hrun'] at hrun
      cases hrun
      refine ⟨?_, hbest⟩
      rw [← hbranch] at hledgerO hmixed
      rw [hutxo, hviewN.utxo, ← hbranch']
      refine hrolls.repairs E hfork hledgerO (hbranch' ▸ hledgerN) (hbranch ▸ h.old_txid)
        (hbranch' ▸ h.new_txid) ?_
      rw [hbranch']
      exact hmixed

theorem height_of_mem_branchLog {fork : List CBlock} {o : COutPoint} {coin : Coin} :
    ∀ {branch : List CBlock}, (o, some coin) ∈ E.branchLog fork branch → fork.length ≤ coin.nHeight
  | block :: branch, h => by
      rw [branchLog, mem_append] at h
      rcases h with h | h
      · exact height_of_mem_branchLog h
      · obtain ⟨tx, -, hmem⟩ := mem_flatMap.mp h
        rw [(mem_coinsFrom (E.mem_created_of_mem_txLog hmem)).2.2.2.2.1, length_append]
        omega

/-- Right just if the coins of genesis that are left were written. -/
theorem replay_first_iff {mixed : Utxo} (hledger : E.LedgerChain (branch ++ [genesis]))
    (hmixed : Mixed (fun _ => none) (E.utxoOf (branch ++ [genesis])) mixed) :
    replay mixed (E.branchLog [genesis] branch) = E.utxoOf (branch ++ [genesis]) ↔
      ∀ o coin, E.utxoOf (branch ++ [genesis]) o = some coin → coin.nHeight = 0 →
        mixed o = some coin := by
  constructor
  · intro hreplay o coin hcoin hheight
    rw [← hreplay] at hcoin
    rcases mem_or_of_replay hcoin with hmem | ⟨-, hthere⟩
    · have hlow := E.height_of_mem_branchLog hmem
      rw [length_singleton] at hlow
      omega
    · exact hthere
  · intro hwritten
    have hnew := E.utxoOf_append [genesis] branch
    funext o
    by_cases ho : o ∈ keys (E.branchLog [genesis] branch)
    · rw [hnew]
      exact replay_of_mem ho _ _
    · rw [replay_of_notMem ho]
      have hbelow : E.utxoOf (branch ++ [genesis]) o = E.utxoOf [genesis] o := by
        rw [hnew, replay_of_notMem ho]
      rcases hmixed o with hnone | hsame
      · cases hcoin : E.utxoOf (branch ++ [genesis]) o with
        | none => exact hnone
        | some coin =>
          refine hwritten o coin hcoin ?_
          have hheight := ((hledger.of_append E).keptCoins E (hbelow.symm.trans hcoin)).height
          exact Nat.le_zero.mp hheight
      · exact hsame

theorem branchReadable_eq_false {S : BlockStore} {genesis : CBlock} : ∀ {branch : List CBlock},
    E.branchReadable S [genesis] branch = false ↔
      ∃ block rest, block :: rest <:+ branch ++ [genesis] ∧ rest ≠ [] ∧
        S.readable (E.blockIndex block rest) = false
  | [] => by
      constructor
      · intro h
        cases h
      · rintro ⟨block, rest, hsuffix, hne, -⟩
        have hlength := hsuffix.length_le
        simp only [nil_append, length_cons, length_nil] at hlength
        exact absurd (length_eq_zero_iff.mp (by omega)) hne
  | b :: branch => by
      rw [branchReadable, Bool.and_eq_false_iff, branchReadable_eq_false, cons_append]
      constructor
      · rintro (⟨block, rest, hsuffix, hrest⟩ | hread)
        · exact ⟨block, rest, hsuffix.trans (suffix_cons _ _), hrest⟩
        · exact ⟨b, branch ++ [genesis], suffix_refl _, by simp, hread⟩
      · rintro ⟨block, rest, hsuffix, hne, hread⟩
        rcases suffix_cons_iff.mp hsuffix with heq | hsuffix
        · cases heq
          exact Or.inr hread
        · exact Or.inl ⟨block, rest, hsuffix, hne, hread⟩

/-- **When a flush is recovered from**: there was an old tip, or the coins of genesis that are left
    had been written, or a block of the new chain cannot be read. -/
theorem replayBlocks_recovers_iff (h : E.Interrupted S old new viewOld viewNew db)
    (hsecp : E.secp.Inverts) :
    E.Recovers S db new viewNew ↔ old ≠ [] ∨
      (∀ o coin, viewNew.utxo o = some coin → coin.nHeight = 0 → db.coins o = some coin) ∨
      ∃ block rest, block :: rest <:+ new ∧ rest ≠ [] ∧
        S.readable (E.blockIndex block rest) = false := by
  by_cases hold : old ≠ []
  · simp only [hold, not_false_eq_true, ne_eq, true_or, iff_true]
    exact h.recovers E hsecp hold
  · rw [ne_eq, not_not] at hold
    subst hold
    obtain ⟨-, hviewO⟩ := h.old_chain.ledger E h.old_hashes
    obtain ⟨hledger, hview⟩ := h.new_chain.ledger E h.new_hashes
    have hmixed := h.mixed
    rw [hviewO.utxo, hview.utxo] at hmixed
    obtain ⟨branch, genesis, hnew, -⟩ := h.new_chain.root E h.new_ne_nil
    obtain ⟨hunread, hread⟩ := h.replay_first E hledger hnew
    rw [hview.utxo]
    have hreadable : E.branchReadable S [genesis] branch = false ↔ _ :=
      E.branchReadable_eq_false
    rw [← hnew] at hreadable
    rw [← hreadable]
    have hfirst := E.replay_first_iff (hnew ▸ hledger) (hnew ▸ hmixed)
    rw [← hnew] at hfirst
    rw [← hfirst]
    cases hreads : E.branchReadable S [genesis] branch with
    | false =>
      simp only [ne_eq, not_true_eq_false, or_true, iff_true]
      intro view hrun
      rw [hunread hreads] at hrun
      cases hrun
    | true =>
      obtain ⟨view, hrun, hutxo, hbest⟩ := hread hreads
      simp only [ne_eq, not_true_eq_false, false_or, Bool.true_eq_false, or_false]
      rw [← hutxo]
      constructor
      · intro hrecovers
        rw [(hrecovers view hrun).1, hview.utxo]
      · intro hsame view' hrun'
        rw [hrun] at hrun'
        cases hrun'
        exact ⟨hsame.trans hview.utxo.symm, hbest⟩

end Interrupted

end Code

end NodeEnv

namespace Regtest

/-- Two blocks after genesis that pay the subsidy to anyone. -/
def left : CBlock := blockOn [genesis] [coinbase [0x51, 0x00] (50 * COIN)]

def right : CBlock := blockOn [genesis] [coinbase [0x51, 0x01] (50 * COIN)]

def store : BlockStore where
  m_block_index hash := ([[left, genesis], [right, genesis], [genesis]].filterMap
    env.tipIndex).find? fun pindex => pindex.getBlockHash == hash
  block pindex :=
    if pindex = env.blockIndex left [genesis] then left
    else if pindex = env.blockIndex right [genesis] then right else genesis
  readable _ := true
  undo _ := env.undoWriteToDisk [] (env.tipHash [genesis])
  undoReadable _ := true

/-- Connects without undo data, and the node has it on disk. -/
structure Branch (block : CBlock) : Prop where
  plain : Plain [block, genesis]
  connects : (connectAll [block, genesis]).isSome = true
  undo : ∃ before ∈ connectAll [genesis],
    (connectOne [genesis] before block).map Prod.snd = some []
  found : ∀ b ∈ [(block, [genesis]), (genesis, [])],
    store.m_block_index (env.blockHash b.1.header) = some (env.blockIndex b.1 b.2) ∧
      store.block (env.blockIndex b.1 b.2) = b.1

instance (block : CBlock) : Decidable (Branch block) :=
  decidable_of_iff (_ ∧ _ ∧ _ ∧ _)
    ⟨fun ⟨hplain, hconnects, hundo, hfound⟩ => ⟨hplain, hconnects, hundo, hfound⟩,
      fun ⟨hplain, hconnects, hundo, hfound⟩ => ⟨hplain, hconnects, hundo, hfound⟩⟩

theorem branches : ∀ block ∈ [left, right], Branch block := by
  decide +kernel

theorem Branch.holds {block : CBlock} (hblock : Branch block) :
    env.Holds store [block, genesis] := by
  have hsuffix : ∀ {b rest}, b :: rest <:+ [block, genesis] →
      b = block ∧ rest = [genesis] ∨ b = genesis ∧ rest = [] := by
    intro b rest h
    rcases suffix_cons_iff.mp h with heq | h
    · cases heq
      exact Or.inl ⟨rfl, rfl⟩
    · rcases suffix_cons_iff.mp h with heq | h
      · cases heq
        exact Or.inr ⟨rfl, rfl⟩
      · cases eq_nil_of_suffix_nil h
  have hfound : ∀ {b rest}, b :: rest <:+ [block, genesis] →
      (b, rest) ∈ [(block, [genesis]), (genesis, [])] := by
    intro b rest h
    rcases hsuffix h with ⟨rfl, rfl⟩ | ⟨rfl, rfl⟩
    · exact mem_cons_self
    · exact mem_cons_of_mem _ mem_cons_self
  refine ⟨fun b rest h => ?_, fun b rest h => ?_, fun b rest h hne => ?_⟩
  · exact (hblock.found _ (hfound h)).1
  · exact (hblock.found _ (hfound h)).2
  · rcases hsuffix h with ⟨rfl, rfl⟩ | ⟨-, rfl⟩
    · obtain ⟨before, hbefore, hone⟩ := hblock.undo
      obtain ⟨⟨after, vtxundo⟩, hone, rfl⟩ := Option.map_eq_some_iff.mp hone
      obtain ⟨hcheck, hconnect⟩ := connectOne_eq_some hone
      exact ⟨before, after, [], connectsTo_of_connectAll hbefore, hcheck, hconnect, rfl⟩
    · exact absurd rfl hne

/-- The coins of `new` were written and none of `old` erased. -/
def unerased (old new : CCoinsViewCache) (headBlocks : List UInt256) : CCoinsViewDB where
  coins o := (old.utxo o).or (new.utxo o)
  bestBlock := 0
  headBlocks
  coins_unspent o coin h := by
    rcases Option.or_eq_some_iff.mp h with h | ⟨-, h⟩
    · exact old.utxo_unspent h
    · exact new.utxo_unspent h

theorem unerased_mixed (old new : CCoinsViewCache) (headBlocks : List UInt256) :
    Mixed old.utxo new.utxo (unerased old new headBlocks).coins := by
  intro o
  simp only [unerased]
  cases old.utxo o with
  | none => exact Or.inr (Option.none_or)
  | some coin => exact Or.inl (Option.some_or)

def halfWritten : CCoinsViewDB :=
  unerased (viewOf [left, genesis]) (viewOf [right, genesis])
    [env.tipHash [right, genesis], env.tipHash [left, genesis]]

theorem halfWritten_interrupted : env.Interrupted store [left, genesis] [right, genesis]
    (viewOf [left, genesis]) (viewOf [right, genesis]) halfWritten where
  old_chain := connectsTo_viewOf (branches left (by simp)).connects
  new_chain := connectsTo_viewOf (branches right (by simp)).connects
  new_ne_nil := cons_ne_nil _ _
  heads := rfl
  mixed := unerased_mixed _ _ _
  old_stored := (branches left (by simp)).holds
  new_stored := (branches right (by simp)).holds
  old_hashes := (branches left (by simp)).plain.hashes
  new_hashes := (branches right (by simp)).plain.hashes
  old_txid := (branches left (by simp)).plain.txid rfl
  new_txid := (branches right (by simp)).plain.txid rfl
  old_height := by decide

theorem halfWritten_recovered :
    (match env.replayBlocks store halfWritten with
      | .ok (returned, _) => returned
      | .error _ => false) = true ∧
    env.Recovers store halfWritten [right, genesis] (viewOf [right, genesis]) :=
  ⟨by decide +kernel, (env.replayBlocks_recovers_iff halfWritten_interrupted secp_inverts).mpr
    (Or.inl (List.cons_ne_nil _ _))⟩

/-- The first flush was interrupted before any coin was written. -/
def unwritten : CCoinsViewDB :=
  { CCoinsViewDB.new with headBlocks := [env.tipHash [left, genesis], 0] }

/-- It returns true and leaves out the coins of genesis. -/
theorem unwritten_not_recovered :
    env.Interrupted store [] [left, genesis] (viewOf []) (viewOf [left, genesis]) unwritten ∧
      ¬ env.Recovers store unwritten [left, genesis] (viewOf [left, genesis]) := by
  have hleft := branches left (by simp)
  constructor
  · refine ⟨connectsTo_viewOf rfl, connectsTo_viewOf hleft.connects, cons_ne_nil _ _, rfl,
      fun o => Or.inl rfl, ⟨?_, ?_, ?_⟩, hleft.holds, ⟨nodup_nil, ?_, ?_, ?_⟩,
      hleft.plain.hashes, ?_, hleft.plain.txid rfl, by decide⟩
    all_goals simp [NodeEnv.GenesisTxid]
  · intro hrecovers
    have hlost : (match env.replayBlocks store unwritten with
        | .ok (returned, view) =>
          returned && (view.utxo ⟨env.txid Regtest.genesisTx, 0⟩).isNone
        | .error _ => false) = true := by decide +kernel
    have hthere : ((viewOf [left, genesis]).utxo ⟨env.txid Regtest.genesisTx, 0⟩).isNone =
        false := by decide +kernel
    split at hlost
    · rename_i returned view hrun
      rw [Bool.and_eq_true] at hlost
      rw [hlost.1] at hrun
      rw [(hrecovers view hrun).1, hthere] at hlost
      cases hlost.2
    · cases hlost

end Regtest

end VBitcoin
