import VBitcoin.FailedBranches

/-!
**The block index and the tree of the library** — every entry from the bootstrap height on is
in the tree, and the data of every stored block above it was given to the tree (`InSync`).
They drift apart when the library refuses a header, which is in the index by then, and when a
block is stored while the tip is below the bootstrap height.
-/

namespace VBitcoin

open List

inductive TreeOperation where
  | acceptBlockHeader (ctx : HeaderContext) (block : CBlockHeader)
  | acceptBlock (ctx : HeaderContext) (fRequested : Bool) (block : CBlock)
  | setTip (tip : Option CBlockIndex)

namespace NodeEnv

variable (E : NodeEnv)

def runTree : TreeOperation → ChainState → Run ChainState
  | .acceptBlockHeader ctx block, s => pure (E.acceptHeader ctx s block).2
  | .acceptBlock ctx fRequested block, s => pure (E.acceptBlockData ctx fRequested s block).2
  | .setTip tip, s => pure { s with tip }

/-- The entry of a header, which is in the index or would be added. -/
def headerIndex (s : ChainState) (block : CBlockHeader) : CBlockIndex :=
  (s.lookup (E.blockHash block)).getD (E.newIndex block (s.lookup block.hashPrevBlock))

structure InSync (s : ChainState) : Prop where
  genesis : E.HasGenesis s
  headers : ∀ b ∈ s.m_block_index, E.isCrossedBootstrapBlockAt b.nHeight = true →
    b.getBlockHash ∈ s.altTree.blocks
  payloads : ∀ b ∈ s.m_block_index, E.pop.bootstrapHeight < b.nHeight →
    (s.status b).haveData = true → b.getBlockHash ∈ s.altTree.payloads

/-- The library accepts a new header that passes the checks. -/
def LibraryAccepts (ctx : HeaderContext) (s : ChainState) (block : CBlockHeader) : Prop :=
  s.lookup (E.blockHash block) = none → accepted (E.checkNewHeader ctx s block).1 = true →
    E.isCrossedBootstrapBlockAt (E.headerIndex s block).nHeight = true →
    ctx.altAcceptBlockHeader s.altTree (E.headerIndex s block) = none

def NoFailedAncestor (s : ChainState) (block : CBlockHeader) : Prop :=
  ∀ p, s.lookup block.hashPrevBlock = some p → s.failed p = false → s.failedAncestor p = none

/-- The states in which an operation keeps the index and the tree together. -/
def KeepsSync (s : ChainState) : TreeOperation → Prop
  | .acceptBlockHeader ctx block => E.LibraryAccepts ctx s block ∧ NoFailedAncestor s block
  | .acceptBlock ctx _ block =>
    E.LibraryAccepts ctx s block.header ∧
      (E.pop.bootstrapHeight < (E.headerIndex s block.header).nHeight →
        E.isCrossedBootstrapBlock s.tip = true)
  | .setTip _ => True

variable {E} {s s' : ChainState}

/-! ### Headers -/

theorem InSync.mono (h : E.InSync s) (hindex : s'.m_block_index = s.m_block_index)
    (hdata : ∀ c, (s'.status c).haveData = (s.status c).haveData)
    (hblocks : s.altTree.blocks ⊆ s'.altTree.blocks)
    (hpayloads : s.altTree.payloads ⊆ s'.altTree.payloads) : E.InSync s' where
  genesis := by
    apply h.genesis.of_subset
    rw [hindex]
    exact List.Subset.refl _
  headers b hb hcrossed := by
    rw [hindex] at hb
    exact hblocks (h.headers b hb hcrossed)
  payloads b hb habove hstored := by
    rw [hindex] at hb
    rw [hdata] at hstored
    exact hpayloads (h.payloads b hb habove hstored)

theorem InSync.markDescendants (h : E.InSync s) (failedit : CBlockIndex) (path : List IndexEntry) :
    E.InSync (ChainState.markDescendants failedit path s) := by
  obtain ⟨hindex, -, -, halt, hstatus⟩ := ChainState.markDescendants_spec failedit path s
  apply h.mono hindex
  · intro c
    rcases hstatus c with heq | heq
    · rw [heq]
    · rw [heq]
  · rw [halt]
    exact List.Subset.refl _
  · rw [halt]
    exact List.Subset.refl _

variable {block : CBlockHeader}

theorem InSync.storeHeader (h : E.InSync s) (ctx : HeaderContext)
    (hlookup : s.lookup (E.blockHash block) = none)
    (haccepts : E.isCrossedBootstrapBlockAt (E.headerIndex s block).nHeight = true →
      ctx.altAcceptBlockHeader s.altTree (E.headerIndex s block) = none) :
    E.InSync (E.storeHeader ctx s block).2 ∧ (E.storeHeader ctx s block).2.tip = s.tip ∧
      accepted (E.storeHeader ctx s block).1 = true := by
  obtain ⟨hnew, halt, hadded⟩ := addToBlockIndex_new (E := E) hlookup
  rw [headerIndex, hlookup, Option.getD_none] at haccepts
  unfold NodeEnv.storeHeader
  generalize hstate : E.addToBlockIndex s block = result at *
  obtain ⟨pindex, s₁⟩ := result
  dsimp only at hnew halt hadded ⊢
  rw [← hnew] at hadded haccepts
  -- the old entries, and the new one
  have hsync : ∀ altTree : AltTree, s.altTree.blocks ⊆ altTree.blocks →
      altTree.payloads = s.altTree.payloads →
      (E.isCrossedBootstrapBlockAt pindex.nHeight = true → pindex.getBlockHash ∈ altTree.blocks) →
      E.InSync { s₁ with altTree } := by
    intro altTree hblocks hpayloads htold
    refine ⟨?_, ?_, ?_⟩
    · apply h.genesis.of_subset
      change s.m_block_index ⊆ s₁.m_block_index
      rw [hadded.index]
      exact subset_append_left _ _
    · intro b hb hcrossed
      change b ∈ s₁.m_block_index at hb
      rw [hadded.index, mem_append, mem_singleton] at hb
      rcases hb with hb | rfl
      · exact hblocks (h.headers b hb hcrossed)
      · exact htold hcrossed
    · intro b hb habove hstored
      change b ∈ s₁.m_block_index at hb
      change (s₁.status b).haveData = true at hstored
      rw [hadded.index, mem_append, mem_singleton] at hb
      change b.getBlockHash ∈ altTree.payloads
      rw [hpayloads]
      rcases hb with hb | rfl
      · have hne : b ≠ pindex := by
          rintro rfl
          exact hadded.not_mem hb
        unfold ChainState.status at hstored
        rw [hadded.other b hne] at hstored
        exact h.payloads b hb habove hstored
      · rw [hadded.status] at hstored
        cases hstored
  cases hcrossed : E.isCrossedBootstrapBlockAt pindex.nHeight with
  | true =>
    rw [if_pos rfl, halt, haccepts hcrossed]
    refine ⟨hsync _ ?_ rfl ?_, hadded.tip, rfl⟩
    · exact fun _ hmem => mem_insert_of_mem hmem
    · exact fun _ => mem_insert_self
  | false =>
    rw [if_neg (by simp)]
    refine ⟨hsync s₁.altTree ?_ ?_ ?_, hadded.tip, rfl⟩
    · rw [halt]
      exact List.Subset.refl _
    · rw [halt]
    · intro htrue
      rw [hcrossed] at htrue
      cases htrue

theorem InSync.acceptHeader (h : E.InSync s) (ctx : HeaderContext)
    (haccepts : E.LibraryAccepts ctx s block) :
    E.InSync (E.acceptHeader ctx s block).2 ∧ (E.acceptHeader ctx s block).2.tip = s.tip := by
  cases hlookup : s.lookup (E.blockHash block) with
  | some pindex =>
    obtain ⟨altTree, heq, hblocks, hpayloads⟩ := acceptHeader_known (E := E) ctx hlookup
    rw [heq]
    refine ⟨h.mono rfl (fun _ => rfl) hblocks ?_, rfl⟩
    rw [← hpayloads]
    exact List.Subset.refl _
  | none =>
    rw [acceptHeader_new ctx h.genesis hlookup]
    rcases checkNewHeader_cases (E := E) ctx s block with
      ⟨heq, -⟩ | ⟨stop, s', heq, rfl | ⟨p, failedit, -, -, -, rfl⟩⟩
    · have hstore := h.storeHeader ctx hlookup (haccepts hlookup (by rw [heq]; rfl))
      rw [heq]
      exact ⟨hstore.1, hstore.2.1⟩
    · rw [heq]
      exact ⟨h, rfl⟩
    · rw [heq]
      exact ⟨h.markDescendants failedit p.path,
        (ChainState.markDescendants_spec failedit p.path s).2.1⟩

theorem acceptHeader_rejected (h : E.InSync s) (ctx : HeaderContext)
    (haccepts : E.LibraryAccepts ctx s block) (hancestor : NoFailedAncestor s block)
    (hlookup : s.lookup (E.blockHash block) = none)
    (hrejected : accepted (E.acceptHeader ctx s block).1 = false) :
    (E.acceptHeader ctx s block).2 = s := by
  rw [acceptHeader_new ctx h.genesis hlookup] at hrejected ⊢
  rcases checkNewHeader_cases (E := E) ctx s block with
    ⟨heq, -⟩ | ⟨stop, s', heq, rfl | ⟨p, failedit, hprev, hfailed, hfound, -⟩⟩
  · have hstore := h.storeHeader ctx hlookup (haccepts hlookup (by rw [heq]; rfl))
    rw [heq] at hrejected
    dsimp only at hrejected
    rw [hstore.2.2] at hrejected
    cases hrejected
  · rw [heq]
  · rw [hancestor p hprev hfailed] at hfound
    cases hfound

theorem acceptHeader_eq_ok (hgenesis : E.HasGenesis s) (ctx : HeaderContext)
    {pindex : CBlockIndex} (h : (E.acceptHeader ctx s block).1 = .ok pindex) :
    pindex = E.headerIndex s block := by
  have hstored : ∀ pindex, (E.storeHeader ctx s block).1 = .ok pindex →
      pindex = (E.addToBlockIndex s block).1 := by
    intro pindex h
    unfold NodeEnv.storeHeader at h
    dsimp only at h
    split at h
    · split at h
      · cases h
        rfl
      · cases h
    · cases h
      rfl
  unfold headerIndex
  cases hlookup : s.lookup (E.blockHash block) with
  | some known =>
    rw [Option.getD_some]
    unfold NodeEnv.acceptHeader at h
    rw [hlookup] at h
    split at h
    · rw [hstored pindex h, addToBlockIndex_known hlookup]
    · dsimp only at h
      split at h
      · cases h
      · cases h
        rfl
  | none =>
    rw [Option.getD_none]
    rw [acceptHeader_new ctx hgenesis hlookup] at h
    rcases checkNewHeader_cases (E := E) ctx s block with ⟨heq, -⟩ | ⟨stop, s', heq, -⟩
    · rw [heq] at h
      rw [hstored pindex h, (addToBlockIndex_new hlookup).1]
    · rw [heq] at h
      cases h

/-! ### Blocks -/

theorem InSync.acceptBody (h : E.InSync s) (ctx : HeaderContext) (fRequested : Bool)
    (block : CBlock) {pindex : CBlockIndex}
    (hcrossed : E.pop.bootstrapHeight < pindex.nHeight → E.isCrossedBootstrapBlock s.tip = true) :
    E.InSync (E.acceptBody ctx fRequested block pindex s).2 := by
  unfold NodeEnv.acceptBody
  split
  · exact h
  · cases E.checkBody block pindex.pprev with
    | error stop =>
      dsimp only
      split
      · refine h.mono rfl ?_ (List.Subset.refl _) (List.Subset.refl _)
        intro c
        rw [ChainState.modifyStatus_status]
        split
        · rfl
        · rfl
      · exact h
    | ok u =>
      dsimp only
      split
      · exact h
      · have hpayloads : E.InSync (E.addPayloads s pindex) ∧
            (E.pop.bootstrapHeight < pindex.nHeight →
              pindex.getBlockHash ∈ (E.addPayloads s pindex).altTree.payloads) := by
          unfold addPayloads
          by_cases hadds : (E.isCrossedBootstrapBlock s.tip &&
              pindex.nHeight != E.pop.bootstrapHeight) = true
          · rw [if_pos hadds]
            refine ⟨h.mono rfl (fun _ => rfl) (List.Subset.refl _) ?_, ?_⟩
            · exact fun _ hmem => mem_insert_of_mem hmem
            · exact fun _ => mem_insert_self
          · rw [if_neg hadds]
            refine ⟨h, fun habove => absurd ?_ hadds⟩
            rw [hcrossed habove, Bool.true_and, bne_iff_ne]
            exact habove.ne'
        split
        · cases hreceived : E.receivedBlockTransactions (E.addPayloads s pindex) block pindex with
          | error stop => exact hpayloads.1
          | ok s' =>
            obtain ⟨hindex, -, halt, -, hstatus⟩ := receivedBlockTransactions_frame hreceived
            refine ⟨?_, ?_, ?_⟩
            · apply hpayloads.1.genesis.of_subset
              rw [hindex]
              exact List.Subset.refl _
            · intro b hb hb'
              rw [hindex] at hb
              rw [halt]
              exact hpayloads.1.headers b hb hb'
            · intro b hb habove hstored
              rw [hindex] at hb
              rw [halt]
              by_cases hb' : b = pindex
              · subst hb'
                exact hpayloads.2 habove
              · rw [hstatus b hb'] at hstored
                exact hpayloads.1.payloads b hb habove hstored
        · exact hpayloads.1

/-! ### Runs -/

theorem inSync_step (s : ChainState) (op : TreeOperation) (s' : ChainState) (h : E.InSync s)
    (hkeeps : E.KeepsSync s op) (hrun : E.runTree op s = .ok s') : E.InSync s' := by
  cases op with
  | acceptBlockHeader ctx block =>
    cases hrun
    exact (h.acceptHeader ctx hkeeps.1).1
  | acceptBlock ctx fRequested block =>
    cases hrun
    obtain ⟨hsync, htip⟩ := h.acceptHeader ctx hkeeps.1
    unfold acceptBlockData
    cases hheader : E.acceptHeader ctx s block.header with
    | mk result s₁ =>
      rw [hheader] at hsync htip
      cases result with
      | error stop => exact hsync
      | ok pindex =>
        have hpindex : pindex = E.headerIndex s block.header :=
          acceptHeader_eq_ok h.genesis ctx (by rw [hheader])
        apply hsync.acceptBody
        dsimp only at htip
        rw [hpindex, htip]
        exact hkeeps.2
  | setTip tip =>
    cases hrun
    exact h.mono rfl (fun _ => rfl) (List.Subset.refl _) (List.Subset.refl _)

/-- **The index and the tree do not drift apart** while the library accepts the new headers and
    nothing above the bootstrap height is stored early; then a refused header changes nothing. -/
theorem index_and_tree_in_sync (E : NodeEnv) (s₀ : ChainState) (hsync : E.InSync s₀)
    (s : ChainState) (hreached : Reached E.runTree E.KeepsSync s₀ s) :
    E.InSync s ∧ ∀ ctx block, E.KeepsSync s (.acceptBlockHeader ctx block) →
      s.lookup (E.blockHash block) = none → accepted (E.acceptHeader ctx s block).1 = false →
        (E.acceptHeader ctx s block).2 = s ∧
          (E.acceptHeader ctx (E.acceptHeader ctx s block).2 block).1 =
            (E.acceptHeader ctx s block).1 := by
  have h := hreached.invariant E.InSync hsync inSync_step
  refine ⟨h, ?_⟩
  intro ctx block hkeeps hlookup hrejected
  have hsame := acceptHeader_rejected h ctx hkeeps.1 hkeeps.2 hlookup hrejected
  refine ⟨hsame, ?_⟩
  rw [hsame]

end NodeEnv

namespace Regtest

/-- The network with the first block as the bootstrap block. -/
def bootstrapEnv : NodeEnv := { env with pop.bootstrapHeight := 1 }

def refusingContext : HeaderContext :=
  { headerContext with altAcceptBlockHeader := fun _ _ => some "bad-prev" }

def summary (s : ChainState) : List (Nat × Bool × Bool × Bool) :=
  s.m_block_index.map fun b => (b.nHeight, (s.status b).haveData,
    s.altTree.blocks.contains b.getBlockHash, s.altTree.payloads.contains b.getBlockHash)

/-- A refused header is in the index; a block stored early misses its PoP data. -/
theorem index_and_tree_drift :
    let header := (blockOn [genesis] [filler]).header
    let refused := bootstrapEnv.acceptHeader refusingContext genesisState header
    let again := bootstrapEnv.acceptHeader refusingContext refused.2 header
    let early := bootstrapEnv.acceptBlockData headerContext true
      (bootstrapEnv.acceptBlockData headerContext true genesisState
        (blockOn [genesis] [filler])).2 (blockOn (fillerChain 1) [filler])
    accepted refused.1 = false ∧ accepted again.1 = true ∧
      summary again.2 = [(0, true, false, false), (1, false, false, false)] ∧
      accepted early.1 = true ∧
      summary early.2 = [(0, true, false, false), (1, true, true, false), (2, true, true, false)] := by
  decide +kernel

theorem bootstrap_in_sync :
    let s := (bootstrapEnv.acceptBlockData headerContext true genesisState
      (blockOn [genesis] [filler])).2
    let orphan := headerThree
    bootstrapEnv.InSync s ∧ summary s = [(0, true, false, false), (1, true, true, false)] ∧
      accepted (bootstrapEnv.acceptHeader headerContext s orphan).1 = false ∧
      (bootstrapEnv.acceptHeader headerContext s orphan).2 = s := by
  intro s orphan
  have hsync : bootstrapEnv.InSync genesisState := by
    have hheight : ∀ b ∈ genesisState.m_block_index, b.nHeight = 0 := by
      intro b hb
      rw [mem_singleton.mp hb]
      rfl
    refine ⟨⟨_, mem_cons_self, rfl⟩, ?_, ?_⟩
    · intro b hb hcrossed
      rw [hheight b hb] at hcrossed
      cases hcrossed
    · intro b hb habove
      rw [hheight b hb] at habove
      cases habove
  have hkeeps : bootstrapEnv.KeepsSync genesisState
      (.acceptBlock headerContext true (blockOn [genesis] [filler])) := by
    refine ⟨fun _ _ _ => rfl, ?_⟩
    intro habove
    exact absurd habove (by decide +kernel)
  have h := bootstrapEnv.index_and_tree_in_sync genesisState hsync s
    (Reached.start.step hkeeps rfl)
  have hrejected : accepted (bootstrapEnv.acceptHeader headerContext s orphan).1 = false := by
    decide +kernel
  have horphan : s.lookup orphan.hashPrevBlock = none := by
    decide +kernel
  refine ⟨h.1, by decide +kernel, hrejected, ?_⟩
  refine (h.2 headerContext orphan ⟨fun _ _ _ => rfl, ?_⟩ (by decide +kernel) hrejected).1
  intro p hp
  rw [horphan] at hp
  cases hp

end Regtest

end VBitcoin
