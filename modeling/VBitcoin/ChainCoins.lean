import VBitcoin.Chain

/-!
**The coins of a chain** — every coin in the set of a chain, or spent by its blocks, is
unspent and spendable and has the height of its block.  Undo data cannot say where coins of
height zero come from: they are outputs of genesis, and while one is left, no coin with its
transaction's hash is anything else.
-/

namespace VBitcoin

open WriteLog List

namespace NodeEnv

variable (E : NodeEnv)

/-! ### Coins that are kept -/

/-- A coin as a chain of at most `bound + 1` blocks creates it. -/
structure KeptCoin (bound : Nat) (coin : Coin) : Prop where
  height : coin.nHeight ≤ bound
  unspent : coin.isSpent = false
  spendable : isUnspendable coin.out.scriptPubKey = false

variable {nHeight : Nat} {tx : CTransaction} {vtx : List CTransaction} {o : COutPoint} {coin : Coin}
  {chain : List CBlock} {block : CBlock}

theorem keptCoin_created (h : TxWellFormed tx)
    {kv : COutPoint × Coin} (hmem : kv ∈ E.created nHeight tx) : KeptCoin nHeight kv.2 := by
  obtain ⟨-, -, -, hout, hheight, -, hscript⟩ := mem_coinsFrom hmem
  exact ⟨Nat.le_of_eq hheight, h.not_isNull hout, hscript⟩

theorem mem_keys_txLogs :
    o ∈ keys (vtx.flatMap (E.txLog nHeight)) ↔ o ∈ vtx.flatMap CTransaction.spent ∨
      ∃ tx ∈ vtx, o ∈ (E.created nHeight tx).map Prod.fst := by
  induction vtx with
  | nil => simp
  | cons tx rest ih =>
    simp only [flatMap_cons, WriteLog.keys_append, mem_append, ih, txLog, keys_removes, keys_puts,
      exists_mem_cons_iff]
    tauto

theorem mem_created_of_mem_txLog
    (h : (o, some coin) ∈ E.txLog nHeight tx) : (o, coin) ∈ E.created nHeight tx := by
  rw [txLog, mem_append] at h
  rcases h with h | h
  · obtain ⟨k, -, hk⟩ := mem_map.mp h
    cases hk
  · obtain ⟨kv, hkv, heq⟩ := mem_map.mp h
    cases heq
    exact hkv

variable {coins : Utxo} {fees : Int} {t : CTransaction}

theorem mem_created_or (h : replay coins (vtx.flatMap (E.txLog nHeight)) o = some coin) :
    (∃ tx ∈ vtx, (o, coin) ∈ E.created nHeight tx) ∨
      (coins o = some coin ∧ o ∉ vtx.flatMap CTransaction.spent) := by
  rcases mem_or_of_replay h with hmem | ⟨hnot, hbefore⟩
  · obtain ⟨tx, htx, hmem⟩ := mem_flatMap.mp hmem
    exact Or.inl ⟨tx, htx, E.mem_created_of_mem_txLog hmem⟩
  · exact Or.inr ⟨hbefore, fun hspent => hnot (E.mem_keys_txLogs.mpr (Or.inl hspent))⟩

theorem LedgerChain.wellFormed (h : E.LedgerChain chain)
    (hblock : block ∈ chain) : BlockWellFormed block := by
  induction h with
  | nil => cases hblock
  | cons _ hon ih =>
    rcases mem_cons.mp hblock with rfl | hblock
    · exact hon.well
    · exact ih hblock

theorem LedgerChain.of_append {branch fork : List CBlock} (h : E.LedgerChain (branch ++ fork)) :
    E.LedgerChain fork := by
  induction branch with
  | nil => exact h
  | cons block branch ih =>
    cases h with
    | cons hchain _ => exact ih hchain

theorem LedgerChain.keptCoins (h : E.LedgerChain chain) (hcoin : E.utxoOf chain o = some coin) :
    KeptCoin (chain.length - 1) coin := by
  induction h generalizing o coin with
  | nil => cases hcoin
  | @cons chain block vtxundo fees hchain hon ih =>
    rcases E.mem_created_or hcoin with ⟨tx, htx, hcreated⟩ | ⟨hbefore, -⟩
    · exact E.keptCoin_created (hon.well.txs tx htx) hcreated
    · obtain ⟨hheight, hunspent, hspendable⟩ := ih hbefore
      refine ⟨?_, hunspent, hspendable⟩
      rw [length_cons]
      omega

theorem TxsConnect.length_eq
    {vtxundo : List CTxUndo} (h : E.TxsConnect nHeight coins vtx vtxundo fees) :
    vtx.length = vtxundo.length := by
  induction h with
  | nil => rfl
  | cons _ _ ih => rw [length_cons, length_cons, ih]

/-- On coins from before the block or of its own transactions. -/
theorem TxsConnect.mid {nHeight : Nat} {coins : Utxo} {vtx : List CTransaction}
    {vtxundo : List CTxUndo} {fees : Int} (h : E.TxsConnect nHeight coins vtx vtxundo fees)
    {u : CTransaction × CTxUndo} (hu : u ∈ vtx.zip vtxundo) :
    ∃ mid fee, E.TxConnects nHeight mid u.1 u.2 fee ∧ ∀ o coin, mid o = some coin →
      coins o = some coin ∨ ∃ tx ∈ vtx, (o, coin) ∈ E.created nHeight tx := by
  induction h with
  | nil => cases hu
  | @cons coins tx rest vprevout vtxundo' fee fees htx _ ih =>
    rcases mem_cons.mp hu with rfl | hu
    · exact ⟨coins, fee, htx, fun o coin ho => Or.inl ho⟩
    · obtain ⟨mid, fee', hmid, hcoins⟩ := ih hu
      refine ⟨mid, fee', hmid, fun o coin ho => ?_⟩
      rcases hcoins o coin ho with hbefore | ⟨t, ht, hcreated⟩
      · rw [← append_nil (E.txLog nHeight tx), ← flatMap_nil,
          ← flatMap_cons] at hbefore
        rcases E.mem_created_or hbefore with ⟨t, ht, hcreated⟩ | ⟨hbefore, -⟩
        · exact Or.inr ⟨t, mem_cons.mpr (Or.inl (mem_singleton.mp ht)), hcreated⟩
        · exact Or.inl hbefore
      · exact Or.inr ⟨t, mem_cons_of_mem _ ht, hcreated⟩

/-! ### Coins of height zero -/

def genesisTx (chain : List CBlock) : Option CTransaction :=
  chain.getLast?.bind fun block => block.vtx.head?

theorem genesisTx_cons (h : chain ≠ []) : genesisTx (block :: chain) = genesisTx chain := by
  obtain ⟨parent, rest, rfl⟩ := exists_cons_of_ne_nil h
  rfl

/-- No transaction has the hash of the genesis transaction and other outputs. -/
def GenesisTxid (chain : List CBlock) : Prop :=
  ∀ t, genesisTx chain = some t → ∀ block ∈ chain, ∀ tx ∈ block.vtx,
    E.txid tx = E.txid t → tx.vout = t.vout

theorem GenesisTxid.tail (h : E.GenesisTxid (block :: chain)) : E.GenesisTxid chain := by
  intro t ht b hb tx htx
  have hne : chain ≠ [] := by
    rintro rfl
    cases hb
  exact h t (by rwa [genesisTx_cons hne]) b (mem_cons_of_mem _ hb) tx htx

theorem LedgerChain.mem_genesis (h : E.LedgerChain chain)
    (hcoin : E.utxoOf chain o = some coin) (hheight : coin.nHeight = 0) :
    ∃ t, genesisTx chain = some t ∧ (o, coin) ∈ E.created 0 t := by
  induction h with
  | nil => cases hcoin
  | @cons chain block vtxundo fees hchain hon ih =>
    rcases E.mem_created_or hcoin with ⟨tx, htx, hcreated⟩ | ⟨hbefore, -⟩
    · have hlength := (mem_coinsFrom hcreated).2.2.2.2.1
      have hnil : chain = [] := by
        rw [← length_eq_zero_iff, ← hlength, hheight]
      subst hnil
      obtain ⟨t, ht⟩ := hon.genesis rfl
      rw [ht, mem_singleton] at htx
      subst htx
      exact ⟨tx, by simp [genesisTx, ht], hcreated⟩
    · have hne : chain ≠ [] := by
        rintro rfl
        cases hbefore
      rw [genesisTx_cons hne]
      exact ih hbefore

theorem LedgerChain.genesis_hash (h : E.LedgerChain chain) (ht : genesisTx chain = some t)
    (hcoin : E.utxoOf chain o = some coin) (hheight : coin.nHeight = 0) :
    o.hash = E.txid t ∧ coin.fCoinBase = t.isCoinBase := by
  obtain ⟨t', ht', hcreated⟩ := h.mem_genesis E hcoin hheight
  rw [ht, Option.some.injEq] at ht'
  subst ht'
  exact ⟨(mem_coinsFrom hcreated).1, (mem_coinsFrom hcreated).2.2.2.2.2.1⟩

theorem ConnectsOn.txid_ne {vtxundo : CBlockUndo}
    (hon : E.ConnectsOn chain block vtxundo fees) (hchain : E.LedgerChain chain)
    (htxid : E.GenesisTxid (block :: chain))
    (hcoin : E.utxoOf chain o = some coin) (hheight : coin.nHeight = 0)
    (htx : tx ∈ block.vtx) : E.txid tx ≠ o.hash := by
  intro hhash
  obtain ⟨t, ht, hcreated⟩ := hchain.mem_genesis E hcoin hheight
  obtain ⟨htx', -, hhigh, -⟩ := mem_coinsFrom hcreated
  have hne : chain ≠ [] := by
    rintro rfl
    cases hcoin
  have hvout : tx.vout = t.vout :=
    htxid t (by rwa [genesisTx_cons hne]) block mem_cons_self tx htx (hhash.trans htx')
  -- the coin is at an output of `tx`, so that BIP30 found it
  have hmem : o ∈ E.createdBy tx := by
    refine mem_map.mpr ⟨o.n, mem_range.mpr ?_, ?_⟩
    · rw [hvout]
      simpa using hhigh
    · rw [hhash]
  rw [hon.new o (mem_flatMap.mpr ⟨tx, htx, hmem⟩)] at hcoin
  cases hcoin

/-- The coins with the hash of the genesis transaction are its own. -/
def OnlyGenesis (t : CTransaction) (coins : Utxo) : Prop :=
  ∀ o coin, o.hash = E.txid t → coins o = some coin →
    coin.nHeight = 0 ∧ coin.fCoinBase = t.isCoinBase

/-- While a coin of height zero is left, only genesis has that hash. -/
theorem LedgerChain.onlyGenesis (h : E.LedgerChain chain)
    (htxid : E.GenesisTxid chain) (ht : genesisTx chain = some t)
    {o₀ : COutPoint} {coin₀ : Coin} (hcoin₀ : E.utxoOf chain o₀ = some coin₀)
    (hheight₀ : coin₀.nHeight = 0) : E.OnlyGenesis t (E.utxoOf chain) := by
  have hzero : ∀ o coin, o.hash = E.txid t → E.utxoOf chain o = some coin → coin.nHeight = 0 := by
    induction h with
    | nil => cases hcoin₀
    | @cons chain block vtxundo fees hchain hon ih =>
      intro o coin hhash hcoin
      rcases E.mem_created_or hcoin₀ with ⟨tx₀, -, hcreated₀⟩ | ⟨hbefore₀, -⟩
      · -- a coin of height zero is created in the first block only
        have hlength := (mem_coinsFrom hcreated₀).2.2.2.2.1
        rcases E.mem_created_or hcoin with ⟨tx, -, hcreated⟩ | ⟨hbefore, -⟩
        · rw [(mem_coinsFrom hcreated).2.2.2.2.1, ← hlength, hheight₀]
        · have hnil : chain = [] := by
            rw [← length_eq_zero_iff, ← hlength, hheight₀]
          subst hnil
          cases hbefore
      · have hne : chain ≠ [] := by
          rintro rfl
          cases hbefore₀
        rw [genesisTx_cons hne] at ht
        rcases E.mem_created_or hcoin with ⟨tx, htx, hcreated⟩ | ⟨hbefore, -⟩
        · refine absurd ?_ (hon.txid_ne E hchain htxid hbefore₀ hheight₀ htx)
          rw [(hchain.genesis_hash E ht hbefore₀ hheight₀).1, ← hhash, (mem_coinsFrom hcreated).1]
        · exact ih htxid.tail ht hbefore₀ o coin hhash hbefore
  intro o coin hhash hcoin
  have hheight := hzero o coin hhash hcoin
  exact ⟨hheight, (h.genesis_hash E ht hcoin hheight).2⟩

end NodeEnv

end VBitcoin
