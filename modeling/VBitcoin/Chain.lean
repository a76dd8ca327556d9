import VBitcoin.ConnectSpec

/-!
**Chains connected from genesis** — `ConnectsTo` is the view after a run of `ConnectBlock`
over blocks that passed `CheckBlock`, `LedgerChain` the same in terms of the ledger, and
`ConnectsTo.ledger` connects the two.  Block hashes are distinct, as keys of the block index,
and none is one that the source singles out (`ChainHashes`).
-/

namespace VBitcoin

open WriteLog List

namespace NodeEnv

variable (E : NodeEnv)

/-- **The views of a chain**; between blocks any sound view may take over. -/
inductive ConnectsTo : List CBlock → CCoinsViewCache → Prop
  | empty {view : CCoinsViewCache} : view.Ok → (∀ o, view.utxo o = none) → view.bestBlock = 0 →
      ConnectsTo [] view
  | connect {chain : List CBlock} {view view' : CCoinsViewCache} {block : CBlock}
      {vtxundo : CBlockUndo} : ConnectsTo chain view →
      E.checkBlockRules block true = .ok () →
      E.connectBlock block (E.blockIndex block chain) view (E.tipIndex chain) false =
        .ok (view', vtxundo) →
      ConnectsTo (block :: chain) view'
  | move {chain : List CBlock} {view view' : CCoinsViewCache} : ConnectsTo chain view →
      view'.Ok → view'.utxo = view.utxo → view'.bestBlock = view.bestBlock →
      ConnectsTo chain view'

structure ChainHashes (chain : List CBlock) : Prop where
  /-- The block index is keyed by hash. -/
  distinct : (chain.map fun b => E.blockHash b.header).Nodup
  not_null : ∀ b ∈ chain, E.blockHash b.header ≠ 0
  not_bip34 : ∀ b ∈ chain, E.blockHash b.header ≠ E.consensus.BIP34Hash
  not_exception : ∀ b ∈ chain, ∀ exception ∈ bip30Exceptions, E.blockHash b.header ≠ exception.2

variable {chain : List CBlock} {block : CBlock} {view : CCoinsViewCache}

theorem ChainHashes.of_suffix {rest : List CBlock} (h : E.ChainHashes chain)
    (hsuffix : rest <:+ chain) : E.ChainHashes rest where
  distinct := h.distinct.sublist (hsuffix.sublist.map _)
  not_null b hb := h.not_null b (hsuffix.subset hb)
  not_bip34 b hb := h.not_bip34 b (hsuffix.subset hb)
  not_exception b hb := h.not_exception b (hsuffix.subset hb)

theorem ChainHashes.tail (h : E.ChainHashes (block :: chain)) : E.ChainHashes chain :=
  h.of_suffix E (suffix_cons block chain)

/-! ### BIP30 is enforced -/

theorem getAncestor_mem {pindex ancestor : CBlockIndex} {height : Nat}
    (h : pindex.getAncestor height = some ancestor) :
    ancestor.entry ∈ pindex.entry :: pindex.ancestors := by
  unfold CBlockIndex.getAncestor at h
  split at h
  · cases h
  · split at h
    · cases h
    · rename_i entry ancestors hdrop
      cases h
      refine mem_of_mem_drop (i := pindex.nHeight - height) ?_
      rw [hdrop]
      exact mem_cons_self

theorem enforceBIP30_of_hashes {parent : CBlock} (h : E.ChainHashes (block :: parent :: chain)) :
    E.enforceBIP30 (E.blockIndex block (parent :: chain)) (E.blockIndex parent chain) = true := by
  have hexception : bip30Exceptions.contains ((E.blockIndex block (parent :: chain)).nHeight,
      (E.blockIndex block (parent :: chain)).getBlockHash) = false := by
    rw [← Bool.not_eq_true, contains_iff_mem]
    intro hmem
    exact h.not_exception block mem_cons_self _ hmem rfl
  have hknown : ((E.blockIndex parent chain).getAncestor E.consensus.BIP34Height).any
      (fun p => p.getBlockHash == E.consensus.BIP34Hash) = false := by
    cases hancestor : (E.blockIndex parent chain).getAncestor E.consensus.BIP34Height with
    | none => rfl
    | some ancestor =>
      have hmem := getAncestor_mem hancestor
      have hentries : (E.blockIndex parent chain).entry :: (E.blockIndex parent chain).ancestors =
          (parent :: chain).map fun b => E.indexEntry b.header := rfl
      rw [hentries] at hmem
      obtain ⟨b, hb, hentry⟩ := mem_map.mp hmem
      have hne := h.not_bip34 b (mem_cons_of_mem _ hb)
      simp only [Option.any_some, beq_eq_false_iff_ne]
      rw [CBlockIndex.getBlockHash, ← hentry]
      exact hne
  simp only [enforceBIP30, hexception, hknown, Bool.not_false, Bool.and_self, Bool.true_or]

/-! ### The chain of the ledger -/

def tipHash (chain : List CBlock) : UInt256 :=
  ((E.tipIndex chain).map CBlockIndex.getBlockHash).getD 0

structure ConnectsOn (chain : List CBlock) (block : CBlock) (vtxundo : CBlockUndo) (fees : Int) :
    Prop where
  well : BlockWellFormed block
  txs : E.TxsConnect chain.length (E.utxoOf chain) block.vtx ([] :: vtxundo) fees
  new : ∀ o ∈ block.vtx.flatMap E.createdBy, E.utxoOf chain o = none
  genesis : chain = [] → ∃ tx, block.vtx = [tx]
  pop : chain ≠ [] → E.checkPop block (E.blockIndex block chain) fees (E.tipIndex chain) = .ok ()

inductive LedgerChain : List CBlock → Prop
  | nil : LedgerChain []
  | cons {chain : List CBlock} {block : CBlock} {vtxundo : CBlockUndo} {fees : Int} :
      LedgerChain chain → E.ConnectsOn chain block vtxundo fees → LedgerChain (block :: chain)

theorem connectBlock_root {tip : Option CBlockIndex} {result : CCoinsViewCache × CBlockUndo}
    (h : E.connectBlock block (E.blockIndex block []) view tip false = .ok result) :
    E.blockHash block.header = E.consensus.hashGenesisBlock ∧ ∃ tx, block.vtx = [tx] := by
  simp only [connectBlock, applyBlock, bind_eq_ok] at h
  obtain ⟨_, -, _, -, _, -, h⟩ := h
  by_cases hgenesis : E.blockHash block.header = E.consensus.hashGenesisBlock
  · rw [if_pos (by simpa using hgenesis)] at h
    refine ⟨hgenesis, ?_⟩
    unfold connectGenesis at h
    split at h
    · rename_i tx hvtx
      exact ⟨tx, hvtx⟩
    · cases h
  · rw [if_neg (by simpa using hgenesis)] at h
    cases h

theorem ConnectsTo.root (h : E.ConnectsTo chain view) (hne : chain ≠ []) :
    ∃ branch genesis, chain = branch ++ [genesis] ∧
      E.blockHash genesis.header = E.consensus.hashGenesisBlock := by
  induction h with
  | empty => exact absurd rfl hne
  | move _ _ _ _ ih => exact ih hne
  | @connect chain view view' block vtxundo _ _ hconnect ih =>
    cases chain with
    | nil => exact ⟨[], block, rfl, (E.connectBlock_root hconnect).1⟩
    | cons parent rest =>
      obtain ⟨branch, genesis, hchain, hhash⟩ := ih (cons_ne_nil _ _)
      exact ⟨block :: branch, genesis, congrArg (block :: ·) hchain, hhash⟩

structure StandsFor (view : CCoinsViewCache) (chain : List CBlock) : Prop where
  ok : view.Ok
  utxo : view.utxo = E.utxoOf chain
  bestBlock : view.bestBlock = E.tipHash chain

theorem connectBlock_on {view' : CCoinsViewCache}
    {vtxundo : CBlockUndo} (hchain : E.ConnectsTo chain view) (hview : E.StandsFor view chain)
    (hhashes : E.ChainHashes (block :: chain)) (hcheck : E.checkBlockRules block true = .ok ())
    (h : E.connectBlock block (E.blockIndex block chain) view (E.tipIndex chain) false =
      .ok (view', vtxundo)) :
    ∃ fees, E.ConnectsOn chain block vtxundo fees ∧ E.StandsFor view' (block :: chain) := by
  have hwell := E.checkBlockRules_eq_ok hcheck
  have hgenesis : E.blockHash block.header = E.consensus.hashGenesisBlock → chain = [] := by
    intro hhash
    by_contra hne
    obtain ⟨branch, genesis, hroot, hhash'⟩ := hchain.root E hne
    refine (nodup_cons.mp hhashes.distinct).1 (mem_map.mpr ⟨genesis, ?_, ?_⟩)
    · rw [hroot]
      exact mem_append_right _ mem_cons_self
    · exact hhash'.trans hhash.symm
  have hconnectable : E.Connectable block (E.blockIndex block chain) view := by
    unfold Connectable
    split
    · rename_i hhash
      intro o
      rw [hview.utxo, hgenesis hhash]
      rfl
    · intro pprev hpprev
      rw [blockIndex_pprev] at hpprev
      cases chain with
      | nil => cases hpprev
      | cons parent rest =>
        cases hpprev
        exact E.enforceBIP30_of_hashes hhashes
  obtain ⟨-, -, fees, hblock, hpop⟩ := E.connectBlock_spec hview.ok hwell hconnectable h
  have htxs := hblock.txs
  have hutxo := hblock.utxo
  have hnew := hblock.new
  rw [blockIndex_nHeight, hview.utxo] at htxs hutxo
  rw [hview.utxo] at hnew
  have hsingle : chain = [] → ∃ tx, block.vtx = [tx] := by
    rintro rfl
    exact (E.connectBlock_root h).2
  refine ⟨fees, ⟨hwell, htxs, hnew, hsingle, fun hne => hpop (mt hgenesis hne)⟩, hblock.ok, hutxo,
    ?_⟩
  have hnull := hhashes.not_null block mem_cons_self
  have hbest : view'.bestBlock = if view'.hashBlock.isNull then view'.base.bestBlock
    else view'.hashBlock := rfl
  rw [hbest, hblock.hashBlock, blockIndex_getBlockHash, UInt256.isNull,
    beq_eq_false_iff_ne.mpr hnull]
  rfl

/-- **A connected view stands for its chain**, which is a chain of the ledger. -/
theorem ConnectsTo.ledger (h : E.ConnectsTo chain view) (hhashes : E.ChainHashes chain) :
    E.LedgerChain chain ∧ E.StandsFor view chain := by
  induction h with
  | empty hok hempty hbest =>
    exact ⟨.nil, hok, funext hempty, hbest⟩
  | move _ hok hutxo hbest ih =>
    obtain ⟨hledger, hview⟩ := ih hhashes
    exact ⟨hledger, hok, hutxo.trans hview.utxo, hbest.trans hview.bestBlock⟩
  | connect hchain hcheck hconnect ih =>
    obtain ⟨hledger, hview⟩ := ih hhashes.tail
    obtain ⟨fees, hon, hview'⟩ := E.connectBlock_on hchain hview hhashes hcheck hconnect
    exact ⟨.cons hledger hon, hview'⟩

end NodeEnv

end VBitcoin
