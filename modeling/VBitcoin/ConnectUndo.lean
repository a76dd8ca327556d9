import VBitcoin.AmountSafety
import VBitcoin.CoinRecord
import VBitcoin.DisconnectSpec

/-!
**Disconnecting the block that was connected last** gives back the coin set and the best block
exactly when the block leaves an output of genesis unspent or spends none.  `sweep` spends all
three of the regression-test genesis, and cannot be disconnected.
-/

namespace VBitcoin

namespace NodeEnv

variable (E : NodeEnv)

/-- `DISCONNECT_OK`, with the coins and the best block of before. -/
def Undoes (chain : List CBlock) (block : CBlock) (vtxundo : CBlockUndo)
    (before after : CCoinsViewCache) : Prop :=
  ∃ view, E.disconnectBlock block (E.blockIndex block chain)
      (some (E.undoWriteToDisk vtxundo (E.tipHash chain))) after (E.tipIndex (block :: chain)) =
        .ok (.DISCONNECT_OK, view) ∧
    view.utxo = before.utxo ∧ view.bestBlock = E.tipHash chain

theorem bestBlock_of_hashBlock {view : CCoinsViewCache} {hash : UInt256}
    (hhash : view.hashBlock = hash) (hne : hash ≠ 0) : view.bestBlock = hash := by
  have hbest : view.bestBlock = if view.hashBlock.isNull then view.base.bestBlock
    else view.hashBlock := rfl
  rw [hbest, hhash, UInt256.isNull, beq_eq_false_iff_ne.mpr hne]
  rfl

theorem undoes_iff_undoRun {chain : List CBlock} {block : CBlock} {before after : CCoinsViewCache}
    {vtxundo : CBlockUndo} {fees : Int} (hon : E.ConnectsOn chain block vtxundo fees)
    (hchain : E.LedgerChain chain) (hne : chain ≠ []) (hhashes : E.ChainHashes chain)
    (hheight : chain.length < 2 ^ 31) (hsecp : E.secp.Inverts)
    (hstate : E.pop.setState (E.tipHash chain) = true)
    (hbefore : E.StandsFor before chain) (hafter : E.StandsFor after (block :: chain)) :
    E.Undoes chain block vtxundo before after ↔
      undoRun (E.utxoOf (block :: chain), true)
        (E.blockUndoOps chain.length block.vtx ([] :: vtxundo)) = some (E.utxoOf chain, true) := by
  obtain ⟨res, view, hrun, hres⟩ := E.disconnectBlock_spec hon hchain hne hheight hsecp hafter.ok
    (fun _ : E.isCrossedBootstrapBlock (E.tipIndex (block :: chain)) = true => hstate)
  rw [hafter.utxo] at hres
  unfold Undoes
  rw [hrun]
  generalize undoRun (E.utxoOf (block :: chain), true)
    (E.blockUndoOps chain.length block.vtx ([] :: vtxundo)) = ledger at hres
  constructor
  · rintro ⟨view', hok, hutxo, -⟩
    cases hok
    cases ledger with
    | none => cases hres
    | some s =>
      obtain ⟨hclean, -, hcoins, -⟩ := hres
      have hflag : s.2 = true := by
        cases hs : s.2 with
        | true => rfl
        | false =>
          rw [hs] at hclean
          cases hclean
      rw [hbefore.utxo, hcoins] at hutxo
      exact congrArg some (Prod.ext hutxo hflag)
  · rintro rfl
    obtain ⟨rfl, -, hcoins, hhash, -⟩ := hres
    obtain ⟨parent, rest, rfl⟩ := List.exists_cons_of_ne_nil hne
    exact ⟨view, rfl, hcoins.trans hbefore.utxo.symm,
      bestBlock_of_hashBlock hhash (hhashes.not_null parent List.mem_cons_self)⟩

end NodeEnv

namespace Regtest

open NodeEnv (spentBy bip30Exceptions LeavesGenesisCoin)

/-- A block after genesis that claims nothing is taken back. -/
def firstBlock : CBlock := blockOn [genesis] [filler]

theorem firstBlock_connects : Plain [firstBlock, genesis] ∧
    ∃ before ∈ connectAll [genesis], (connectOne [genesis] before firstBlock).isSome = true := by
  decide +kernel

theorem fillerChain_ne_nil : ∀ n, fillerChain n ≠ []
  | 0 => List.cons_ne_nil _ _
  | _ + 1 => List.cons_ne_nil _ _

theorem fillerChain_genesis : ∀ n, NodeEnv.genesisTx (fillerChain n) = some Regtest.genesisTx
  | 0 => rfl
  | n + 1 => (NodeEnv.genesisTx_cons (fillerChain_ne_nil n)).trans (fillerChain_genesis n)

def sweepTx : CTransaction where
  vin := [0, 1, 2].map fun n =>
    { prevout := ⟨env.txid Regtest.genesisTx, n⟩, scriptSig := [], nSequence := 0xffffffff }
  vout := [⟨3000000000, [OP_1]⟩]

def sweep : CBlock := blockOn (fillerChain 99) [filler, sweepTx]

set_option maxRecDepth 1000000 in
theorem sweep_evaluates : Plain (sweep :: fillerChain 99) ∧ ∃ view ∈ connectAll [genesis],
    view.hashBlock = env.tipHash [genesis] ∧ lacksCoin view ⟨env.txid filler, 0⟩ = true ∧
    (connectOne (fillerChain 99) (view.setBestBlock (env.tipHash (fillerChain 99))) sweep).isSome =
      true ∧
    ∃ coin ∈ view.utxo ⟨env.txid Regtest.genesisTx, 0⟩, coin.nHeight = 0 := by
  decide +kernel

theorem sweep_connects : ∃ before ∈ connectAll (fillerChain 99),
    (connectOne (fillerChain 99) before sweep).isSome = true ∧
      ∃ coin ∈ before.utxo ⟨env.txid Regtest.genesisTx, 0⟩, coin.nHeight = 0 := by
  obtain ⟨hplain, view, hview, hbest, hlacks, hsome, hcoin⟩ := sweep_evaluates
  refine ⟨_, connectAll_fillerChain hview hbest hlacks 99 (by decide) hplain.tail, hsome, ?_⟩
  rwa [NodeEnv.setBestBlock_utxo]

theorem sweep_txid : env.GenesisTxid (sweep :: fillerChain 99) :=
  sweep_evaluates.1.txid
    ((NodeEnv.genesisTx_cons (fillerChain_ne_nil 99)).trans (fillerChain_genesis 99))

/-- The block spends all that has height zero. -/
theorem sweep_not_leaves (hledger : env.LedgerChain (fillerChain 99))
    (hcoin : ∃ coin ∈ env.utxoOf (fillerChain 99) ⟨env.txid Regtest.genesisTx, 0⟩,
      coin.nHeight = 0) :
    ¬ LeavesGenesisCoin (env.utxoOf (fillerChain 99)) sweep := by
  have hspent : spentBy sweep = [0, 1, 2].map (COutPoint.mk (env.txid Regtest.genesisTx)) := rfl
  have hcreated : (env.created 0 Regtest.genesisTx).map Prod.fst =
      [0, 1, 2].map (COutPoint.mk (env.txid Regtest.genesisTx)) := by decide +kernel
  obtain ⟨coin, hcoin, hheight⟩ := hcoin
  rintro (hnone | ⟨o, coin', hcoin', hheight', -, hleft⟩)
  · refine hnone ⟨env.txid Regtest.genesisTx, 0⟩ ?_ coin hcoin hheight
    rw [hspent]
    exact List.mem_cons_self
  · obtain ⟨t, ht, hmem⟩ := hledger.mem_genesis env hcoin' hheight'
    rw [fillerChain_genesis, Option.some.injEq] at ht
    subst ht
    rw [hspent, ← hcreated] at hleft
    exact hleft (List.mem_map.mpr ⟨(o, coin'), hmem, rfl⟩)

end Regtest

end VBitcoin
