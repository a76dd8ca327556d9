import VBitcoin.BlockDownload

/-!
**When the requested blocks are well chosen** — in every state that the node reaches they are
absent and below a block the peer is known to have.  They are distinct and within the limit of
the peer just when the second search has nothing to add, or finds room and other blocks.
-/

namespace VBitcoin

open CBlockIndex CChain BlockIndexMap List

/-! ### States the node can be in -/

/-- In the index, and the best known one has the most work. -/
structure PeerBlocks.Known {genesis : CBlockIndex} (D : DownloadParams)
    (index : BlockIndexMap genesis) (state : PeerBlocks) : Prop where
  best : ∀ b, state.pindexBestKnownBlock = some b → b ∈ index.blocks
  common : ∀ b, state.pindexLastCommonBlock = some b → b ∈ index.blocks
  commonAnnounced : ∀ b, state.pindexLastCommonAnnouncedBlock = some b → b ∈ index.blocks
  announced : ∀ a, state.pindexLastAnnouncedBlock = some a → a ∈ index.blocks ∧
    ∃ b, state.pindexBestKnownBlock = some b ∧ D.nChainWork a ≤ D.nChainWork b

namespace DownloadState

variable {genesis : CBlockIndex} {D : DownloadParams} {s : DownloadState genesis}
  {nodeid : NodeId} {count nWindowEnd : Nat}

structure Consistent (D : DownloadParams) (s : DownloadState genesis) : Prop where
  branch : IsBranch s.chain.vChain s.chain.tip
  tip : ∃ t ∈ s.index.blocks, s.chain.tip = some t
  peers : ∀ nodeid, (s.peer nodeid).Known D s.index

theorem Consistent.guessLastCommon (hs : s.Consistent D) (bestBlock : CBlockIndex) :
    ∃ b ∈ s.index.blocks, s.guessLastCommon bestBlock = some b := by
  obtain ⟨t, ht, htip⟩ := hs.tip
  have hbranch := hs.branch
  rw [htip] at hbranch
  have hheight := height_eq hbranch
  obtain ⟨b, hbt, hb⟩ := t.exists_le_nHeight (Nat.min_le_right bestBlock.nHeight t.nHeight)
  refine ⟨b, mem_of_le ht hbt, ?_⟩
  have hmin : min (bestBlock.nHeight : Int) s.chain.height =
      ((min bestBlock.nHeight t.nHeight : Nat) : Int) := by
    rw [hheight]
    omega
  rw [DownloadState.guessLastCommon, hmin]
  exact (operatorAt_eq_some_iff hbranch _).mpr ⟨hb, t, rfl, hbt⟩

theorem Consistent.findNext (hs : s.Consistent D) (found : Found) {bestBlock : CBlockIndex}
    (hbest : bestBlock ∈ s.index.blocks)
    (hcommon : ∀ b, found.lastCommonBlock = some b → b ∈ s.index.blocks) (hcount : 0 < count) :
    ∃ r, s.findNextBlocksToDownload D nodeid count found bestBlock = .ok r ∧
      r.vBlocks = found.vBlocks ++ fill count found.vBlocks.length
        (missing D s nodeid found.lastCommonBlock bestBlock) ∧
      ∀ b, r.lastCommonBlock = some b → b ∈ s.index.blocks := by
  unfold findNextBlocksToDownload missing
  rw [if_neg hcount.ne']
  split
  · exact ⟨found, rfl, by rw [fill_nil, append_nil], hcommon⟩
  · obtain ⟨common, hmem, hsome⟩ : ∃ b ∈ s.index.blocks,
        found.lastCommonBlock.or (s.guessLastCommon bestBlock) = some b := by
      cases hlast : found.lastCommonBlock with
      | none => exact hs.guessLastCommon bestBlock
      | some b => exact ⟨b, hcommon b hlast, rfl⟩
    obtain ⟨fork, hfork, -, hle, -⟩ := lastCommonAncestor_spec
      ⟨genesis, s.index.rooted common hmem, s.index.rooted bestBlock hbest⟩
    simp only [hsome, hfork, ok_bind]
    split
    · rename_i heq
      refine ⟨_, rfl, ?_, ?_⟩
      · rw [← between_of_nHeight_le (le_refl _) (nHeight_le heq.ge) (Nat.le_add_right _ _)]
        simp [between, fill_nil]
      · intro b hb
        obtain rfl := Option.some.inj hb
        exact mem_of_le hbest hle
    · have hheight := nHeight_le hle
      rw [walkLoop_eq (Nat.min_le_left _ _) (by omega) (le_refl _), ok_bind]
      refine ⟨_, rfl, ?_, ?_⟩
      · simp only
        rw [fetchLoop_vBlocks pairwise_between, filter_window hle]
      · intro b hb
        have hb := (Option.some.inj hb).symm
        rcases fetchLoop_lastCommonBlock with hsame | hstep
        · rw [hb, hsame]
          exact mem_of_le hbest hle
        · rw [hb]
          exact mem_of_le hbest (mem_between.mp hstep).1

end DownloadState

/-! ### What the operations keep -/

def PeerBlocks.tracked (state : PeerBlocks) :
    Option CBlockIndex × Option CBlockIndex × Option CBlockIndex × Option CBlockIndex :=
  (state.pindexBestKnownBlock, state.pindexLastCommonBlock, state.pindexLastAnnouncedBlock,
    state.pindexLastCommonAnnouncedBlock)

theorem PeerBlocks.Known.of_tracked {genesis : CBlockIndex} {D : DownloadParams}
    {index : BlockIndexMap genesis} {state state' : PeerBlocks} (h : state.Known D index)
    (heq : state'.tracked = state.tracked) : state'.Known D index := by
  simp only [PeerBlocks.tracked, Prod.mk.injEq] at heq
  obtain ⟨hbest, hcommon, hannounced, hcommonAnnounced⟩ := heq
  constructor
  · rw [hbest]
    exact h.best
  · rw [hcommon]
    exact h.common
  · rw [hcommonAnnounced]
    exact h.commonAnnounced
  · rw [hbest, hannounced]
    exact h.announced

namespace DownloadState

variable {genesis : CBlockIndex} {D : DownloadParams} {s : DownloadState genesis}
  {nodeid other : NodeId} {hash : UInt256} {count : Nat}

variable {f : PeerBlocks → PeerBlocks} {staller : NodeId} {nNow : Int}

theorem peer_modifyPeer : (s.modifyPeer nodeid f).peer nodeid = f (s.peer nodeid) := if_pos rfl

theorem tracked_modifyPeer (hf : ∀ state, (f state).tracked = state.tracked) :
    ((s.modifyPeer nodeid f).peer other).tracked = (s.peer other).tracked := by
  simp only [modifyPeer]
  split
  · exact hf _
  · rfl

theorem tracked_markBlockAsReceived :
    ((s.markBlockAsReceived hash).peer other).tracked = (s.peer other).tracked := by
  unfold markBlockAsReceived
  split
  · rfl
  · exact tracked_modifyPeer fun _ => rfl

theorem tracked_markBlockAsInFlight :
    ((s.markBlockAsInFlight nodeid hash).peer other).tracked = (s.peer other).tracked := by
  unfold markBlockAsInFlight
  split
  · rfl
  · exact (tracked_modifyPeer (f := PeerBlocks.started) fun _ => rfl).trans
      tracked_markBlockAsReceived

def SameBlocks (s s' : DownloadState genesis) : Prop := s'.index = s.index ∧ s'.chain = s.chain

theorem sameBlocks_markBlockAsReceived : SameBlocks s (s.markBlockAsReceived hash) := by
  unfold markBlockAsReceived
  split
  · exact ⟨rfl, rfl⟩
  · exact ⟨rfl, rfl⟩

theorem sameBlocks_markBlockAsInFlight (s : DownloadState genesis) (nodeid : NodeId)
    (hash : UInt256) : SameBlocks s (s.markBlockAsInFlight nodeid hash) := by
  unfold markBlockAsInFlight
  split
  · exact ⟨rfl, rfl⟩
  · exact sameBlocks_markBlockAsReceived

variable {s' : DownloadState genesis} {pindex : CBlockIndex}

theorem Consistent.of_tracked (hs : s.Consistent D) (hsame : SameBlocks s s')
    (htracked : ∀ nodeid, (s'.peer nodeid).tracked = (s.peer nodeid).tracked) :
    s'.Consistent D := by
  obtain ⟨hindex, hchain⟩ := hsame
  constructor
  · rw [hchain]
    exact hs.branch
  · rw [hchain, hindex]
    exact hs.tip
  · intro nodeid
    rw [hindex]
    exact (hs.peers nodeid).of_tracked (htracked nodeid)

theorem markAll_keeps (nodeid : NodeId) (vToDownload : List CBlockIndex) :
    ∀ s : DownloadState genesis,
    SameBlocks s (s.markAll nodeid vToDownload) ∧
      ∀ other, ((s.markAll nodeid vToDownload).peer other).tracked = (s.peer other).tracked := by
  induction vToDownload with
  | nil => exact fun _ => ⟨⟨rfl, rfl⟩, fun _ => rfl⟩
  | cons pindex rest ih =>
    intro s
    obtain ⟨hsame, htracked⟩ := ih (s.markBlockAsInFlight nodeid pindex.getBlockHash)
    obtain ⟨hindex, hchain⟩ := sameBlocks_markBlockAsInFlight s nodeid pindex.getBlockHash
    exact ⟨⟨hsame.1.trans hindex, hsame.2.trans hchain⟩,
      fun other => (htracked other).trans tracked_markBlockAsInFlight⟩

theorem markBlockAsInFlight_new (hnew : s.flightOf hash = none) :
    s.markBlockAsInFlight nodeid hash =
      (s.modifyPeer nodeid PeerBlocks.started).withInFlight ((hash, nodeid) :: s.inFlight) := by
  have hreceived : s.markBlockAsReceived hash = s := by
    simp only [markBlockAsReceived, hnew]
  rw [markBlockAsInFlight, if_neg (by rw [hnew]; exact Option.some_ne_none _ |>.symm), hreceived]

theorem flightOf_mark (hnew : s.flightOf hash = none) {otherHash : UInt256}
    (hne : otherHash ≠ hash) :
    (s.markBlockAsInFlight nodeid hash).flightOf otherHash = s.flightOf otherHash := by
  rw [markBlockAsInFlight_new hnew]
  exact congrArg (Option.map Prod.snd)
    (find?_cons_of_neg (fun h => hne (of_decide_eq_true h).symm))

theorem nBlocksInFlight_mark (hnew : s.flightOf hash = none) :
    ((s.markBlockAsInFlight nodeid hash).peer nodeid).nBlocksInFlight =
      (s.peer nodeid).nBlocksInFlight + 1 := by
  rw [markBlockAsInFlight_new hnew]
  exact congrArg PeerBlocks.nBlocksInFlight peer_modifyPeer

theorem nBlocksInFlight_markAll : ∀ {vToDownload : List CBlockIndex} {s : DownloadState genesis},
    (∀ b ∈ vToDownload, s.flightOf b.getBlockHash = none) →
    (vToDownload.map getBlockHash).Nodup →
    ((s.markAll nodeid vToDownload).peer nodeid).nBlocksInFlight =
      (s.peer nodeid).nBlocksInFlight + vToDownload.length
  | [], _, _, _ => rfl
  | b :: rest, s, hnew, hnodup => by
    rw [map_cons, nodup_cons] at hnodup
    have hb := hnew b mem_cons_self
    have hrest : ∀ c ∈ rest, (s.markBlockAsInFlight nodeid b.getBlockHash).flightOf
        c.getBlockHash = none := by
      intro c hc
      have hne : c.getBlockHash ≠ b.getBlockHash :=
        fun heq => hnodup.1 (heq ▸ mem_map_of_mem hc)
      rw [flightOf_mark hb hne]
      exact hnew c (mem_cons_of_mem b hc)
    have hcount := nBlocksInFlight_markAll hrest hnodup.2
    rw [nBlocksInFlight_mark hb] at hcount
    rw [length_cons]
    exact hcount.trans (by omega)

theorem better_spec {best : Option CBlockIndex}
    (hbest : ∀ b, best = some b → b ∈ s.index.blocks) (hpindex : pindex ∈ s.index.blocks) :
    (∀ b, processBlockAvailability.better D best pindex = some b → b ∈ s.index.blocks) ∧
    ∃ b, processBlockAvailability.better D best pindex = some b ∧
      D.nChainWork pindex ≤ D.nChainWork b ∧
      ∀ known, best = some known → D.nChainWork known ≤ D.nChainWork b := by
  unfold processBlockAvailability.better
  split
  · exact ⟨by rintro _ ⟨⟩; exact hpindex, pindex, rfl, le_refl _, by simp⟩
  · rename_i known
    split
    · rename_i hwork
      refine ⟨by rintro _ ⟨⟩; exact hpindex, pindex, rfl, le_refl _, ?_⟩
      rintro _ ⟨⟩
      exact hwork
    · rename_i hwork
      refine ⟨hbest, known, rfl, by omega, ?_⟩
      rintro _ ⟨⟩
      exact le_refl _

theorem known_better {state : PeerBlocks} (h : state.Known D s.index)
    (hpindex : pindex ∈ s.index.blocks) (hashLastUnknownBlock : UInt256) :
    ({ state with
        pindexBestKnownBlock :=
          processBlockAvailability.better D state.pindexBestKnownBlock pindex
        hashLastUnknownBlock } : PeerBlocks).Known D s.index := by
  obtain ⟨hmem, b, hb, -, hmore⟩ := better_spec (D := D) h.best hpindex
  refine ⟨hmem, h.common, h.commonAnnounced, ?_⟩
  intro a ha
  obtain ⟨hmema, known, hknown, hwork⟩ := h.announced a ha
  exact ⟨hmema, b, hb, hwork.trans (hmore known hknown)⟩

theorem Consistent.modifyPeer (hs : s.Consistent D) (nodeid : NodeId)
    (hf : (s.peer nodeid).Known D s.index → (f (s.peer nodeid)).Known D s.index) :
    (s.modifyPeer nodeid f).Consistent D := by
  refine ⟨hs.branch, hs.tip, fun other => ?_⟩
  simp only [DownloadState.modifyPeer]
  split
  · rename_i heq
    rw [heq]
    exact hf (hs.peers nodeid)
  · exact hs.peers other

theorem Consistent.processBlockAvailability (hs : s.Consistent D) (nodeid : NodeId) :
    (s.processBlockAvailability D nodeid).Consistent D := by
  unfold DownloadState.processBlockAvailability
  split
  · exact hs
  · split
    · exact hs
    · rename_i pindex hlookup
      split
      · exact hs.modifyPeer nodeid fun h => known_better h (mem_of_lookup hlookup) 0
      · exact hs

theorem Consistent.updateBlockAvailability (hs : s.Consistent D) (nodeid : NodeId)
    (hash : UInt256) : (s.updateBlockAvailability D nodeid hash).Consistent D := by
  have hs' := hs.processBlockAvailability nodeid
  -- an unknown block is only remembered
  have hunknown : ((s.processBlockAvailability D nodeid).modifyPeer nodeid fun state =>
      { state with hashLastUnknownBlock := hash }).Consistent D :=
    hs'.modifyPeer nodeid fun h => h.of_tracked rfl
  unfold DownloadState.updateBlockAvailability
  simp only
  split
  · rename_i pindex hlookup
    split
    · exact hs'.modifyPeer nodeid fun h => known_better h (mem_of_lookup hlookup) _
    · exact hunknown
  · exact hunknown

theorem Consistent.updateBestChainTip (hs : s.Consistent D) (nodeid : NodeId) (tip : UInt256) :
    (s.updateBestChainTip D nodeid tip).Consistent D := by
  unfold DownloadState.updateBestChainTip
  simp only
  apply Consistent.processBlockAvailability
  split
  · rename_i pindex hlookup
    split
    · apply hs.modifyPeer nodeid
      intro h
      have hpindex := mem_of_lookup hlookup
      obtain ⟨hmem, b, hb, hwork, -⟩ := better_spec (D := D) h.best hpindex
      refine ⟨hmem, h.common, h.commonAnnounced, ?_⟩
      rintro a ⟨⟩
      exact ⟨hpindex, b, hb, hwork⟩
    · exact hs
  · exact hs

/-! ### The step -/

def missingBest (D : DownloadParams) (s : DownloadState genesis) (nodeid : NodeId) :
    List CBlockIndex :=
  match (s.peer nodeid).pindexBestKnownBlock with
  | none => []
  | some best => missing D s nodeid (s.peer nodeid).pindexLastCommonBlock best

def missingAnnounced (D : DownloadParams) (s : DownloadState genesis) (nodeid : NodeId) :
    List CBlockIndex :=
  match (s.peer nodeid).pindexLastAnnouncedBlock, (s.peer nodeid).pindexBestKnownBlock with
  | some announced, some best =>
    if best.getAncestor announced.nHeight ≠ some announced then
      missing D s nodeid (s.peer nodeid).pindexLastCommonAnnouncedBlock announced
    else []
  | _, _ => []

def chosen (D : DownloadParams) (s : DownloadState genesis) (nodeid : NodeId) (count : Nat) :
    List CBlockIndex :=
  (missingBest D s nodeid).take count ++
    fill count ((missingBest D s nodeid).take count).length (missingAnnounced D s nodeid)

theorem Consistent.searchBest (hs : s.Consistent D) (nodeid : NodeId) (hcount : 0 < count) :
    ∃ first, s.searchBest D nodeid count = .ok first ∧
      first.vBlocks = (missingBest D s nodeid).take count ∧
      ∀ b, first.lastCommonBlock = some b → b ∈ s.index.blocks := by
  have hpeer := hs.peers nodeid
  cases hbest : (s.peer nodeid).pindexBestKnownBlock with
  | none =>
    simp only [DownloadState.searchBest, missingBest, hbest, take_nil]
    exact ⟨⟨[], -1, (s.peer nodeid).pindexLastCommonBlock⟩, rfl, rfl, hpeer.common⟩
  | some best =>
    simp only [DownloadState.searchBest, missingBest, hbest]
    obtain ⟨first, hfirst, hvBlocks, hcommon⟩ := hs.findNext
      ⟨[], -1, (s.peer nodeid).pindexLastCommonBlock⟩ (hpeer.best best hbest) hpeer.common hcount
    refine ⟨first, hfirst, ?_, hcommon⟩
    rw [hvBlocks, fill, length_nil, if_pos hcount]
    rfl

theorem Consistent.searchAnnounced (hs : s.Consistent D) (nodeid : NodeId) (hcount : 0 < count)
    (found : Found) :
    ∃ second, s.searchAnnounced D nodeid count found = .ok second ∧
      second.vBlocks =
        found.vBlocks ++ fill count found.vBlocks.length (missingAnnounced D s nodeid) ∧
      ∀ b, second.lastCommonBlock = some b → b ∈ s.index.blocks := by
  have hpeer := hs.peers nodeid
  -- without a search the vector stays as it is
  have hidle : ∃ second : Found,
      (pure ⟨found.vBlocks, found.nodeStaller, (s.peer nodeid).pindexLastCommonAnnouncedBlock⟩ :
        Run Found) = .ok second ∧
      second.vBlocks = found.vBlocks ++ fill count found.vBlocks.length [] ∧
      ∀ b, second.lastCommonBlock = some b → b ∈ s.index.blocks :=
    ⟨_, rfl, by rw [fill_nil, append_nil], hpeer.commonAnnounced⟩
  cases hannounced : (s.peer nodeid).pindexLastAnnouncedBlock with
  | none =>
    simp only [DownloadState.searchAnnounced, missingAnnounced, hannounced]
    exact hidle
  | some announced =>
    obtain ⟨hmem, best, hbest, hwork⟩ := hpeer.announced announced hannounced
    simp only [DownloadState.searchAnnounced, missingAnnounced, hannounced, hbest,
      decide_eq_true hwork, require_true, ok_bind]
    split
    · exact hs.findNext ⟨found.vBlocks, found.nodeStaller,
        (s.peer nodeid).pindexLastCommonAnnouncedBlock⟩ hmem hpeer.commonAnnounced hcount
    · exact hidle

theorem tracked_noteStaller :
    ((s.noteStaller nodeid staller nNow).peer other).tracked = (s.peer other).tracked := by
  unfold noteStaller
  split
  · exact tracked_modifyPeer fun _ => rfl
  · rfl

theorem nBlocksInFlight_noteStaller :
    ((s.noteStaller nodeid staller nNow).peer other).nBlocksInFlight =
      (s.peer other).nBlocksInFlight := by
  unfold noteStaller
  split
  · simp only [DownloadState.modifyPeer]
    split <;> rfl
  · rfl

theorem sameBlocks_noteStaller : SameBlocks s (s.noteStaller nodeid staller nNow) := by
  unfold noteStaller
  split <;> exact ⟨rfl, rfl⟩

theorem processBlockAvailability_keeps (D : DownloadParams) (s : DownloadState genesis)
    (nodeid : NodeId) :
    (s.processBlockAvailability D nodeid).nStatus = s.nStatus ∧
    (s.processBlockAvailability D nodeid).chain = s.chain ∧
    (s.processBlockAvailability D nodeid).inFlight = s.inFlight ∧
    ((s.processBlockAvailability D nodeid).peer nodeid).nBlocksInFlight =
      (s.peer nodeid).nBlocksInFlight := by
  unfold processBlockAvailability
  split
  · exact ⟨rfl, rfl, rfl, rfl⟩
  · split
    · exact ⟨rfl, rfl, rfl, rfl⟩
    · split
      · refine ⟨rfl, rfl, rfl, ?_⟩
        rw [peer_modifyPeer]
      · exact ⟨rfl, rfl, rfl, rfl⟩

theorem absent_processBlockAvailability (b : CBlockIndex) :
    (s.processBlockAvailability D nodeid).absent b = s.absent b := by
  obtain ⟨hstatus, hchain, hflight, -⟩ := processBlockAvailability_keeps D s nodeid
  simp only [absent, downloaded, flightOf, hstatus, hchain, hflight]

def slots (s : DownloadState genesis) (nodeid : NodeId) : Nat :=
  MAX_BLOCKS_IN_TRANSIT_PER_PEER - (s.peer nodeid).nBlocksInFlight

theorem Consistent.requestBlocks (hs : s.Consistent D)
    (hslots : (s.peer nodeid).nBlocksInFlight < MAX_BLOCKS_IN_TRANSIT_PER_PEER) (nNow : Int) :
    ∃ (f : PeerBlocks → PeerBlocks) (staller : NodeId) (s' : DownloadState genesis),
      s.requestBlocks D nodeid true nNow =
        .ok (chosen D (s.processBlockAvailability D nodeid) nodeid (s.slots nodeid), s') ∧
      s' = (((s.processBlockAvailability D nodeid).modifyPeer nodeid f).markAll nodeid
        (chosen D (s.processBlockAvailability D nodeid) nodeid (s.slots nodeid))).noteStaller
          nodeid staller nNow ∧
      (∀ state, (f state).nBlocksInFlight = state.nBlocksInFlight ∧
        (f state).pindexBestKnownBlock = state.pindexBestKnownBlock ∧
        (f state).pindexLastAnnouncedBlock = state.pindexLastAnnouncedBlock) ∧
      s'.Consistent D := by
  have hs' := hs.processBlockAvailability nodeid
  have hcount : 0 < s.slots nodeid := Nat.sub_pos_of_lt hslots
  have hsame : s.slots nodeid =
      MAX_BLOCKS_IN_TRANSIT_PER_PEER -
        ((s.processBlockAvailability D nodeid).peer nodeid).nBlocksInFlight := by
    rw [(processBlockAvailability_keeps D s nodeid).2.2.2]
    rfl
  obtain ⟨first, hfirst, hvBlocks, hcommon⟩ := hs'.searchBest nodeid hcount
  obtain ⟨second, hsecond, hvBlocks', hcommon'⟩ := hs'.searchAnnounced nodeid hcount first
  rw [hvBlocks] at hvBlocks'
  have hchosen : second.vBlocks =
      chosen D (s.processBlockAvailability D nodeid) nodeid (s.slots nodeid) := hvBlocks'
  refine ⟨fun state => { state with
      pindexLastCommonBlock := first.lastCommonBlock
      pindexLastCommonAnnouncedBlock := second.lastCommonBlock }, second.nodeStaller, _, ?_, rfl,
    fun _ => ⟨rfl, rfl, rfl⟩, ?_⟩
  · simp only [DownloadState.requestBlocks, Bool.true_and, decide_eq_true hslots, if_true, ← hsame,
      hfirst, hsecond, ok_bind, hchosen]
    rfl
  · have hmodified := hs'.modifyPeer nodeid (f := fun state => { state with
        pindexLastCommonBlock := first.lastCommonBlock
        pindexLastCommonAnnouncedBlock := second.lastCommonBlock })
      fun h => ⟨h.best, hcommon, hcommon', h.announced⟩
    obtain ⟨hblocks, htracked⟩ := markAll_keeps nodeid
      (chosen D (s.processBlockAvailability D nodeid) nodeid (s.slots nodeid)) _
    exact (hmodified.of_tracked hblocks htracked).of_tracked sameBlocks_noteStaller
      fun _ => tracked_noteStaller

theorem nodup_missingBest : (missingBest D s nodeid).Nodup := by
  unfold missingBest
  split
  · exact nodup_nil
  · exact nodup_missing

theorem nodup_missingAnnounced : (missingAnnounced D s nodeid).Nodup := by
  unfold missingAnnounced
  split
  · split
    · exact nodup_missing
    · exact nodup_nil
  · exact nodup_nil

theorem chosen_spec {b : CBlockIndex} (hb : b ∈ chosen D s nodeid count) :
    s.absent b = true ∧ ∃ known, ((s.peer nodeid).pindexBestKnownBlock = some known ∨
      (s.peer nodeid).pindexLastAnnouncedBlock = some known) ∧ b ≤ known := by
  rcases mem_append.mp hb with hb | hb
  · have hb := mem_of_mem_take hb
    unfold missingBest at hb
    split at hb
    · cases hb
    · rename_i best hbest
      obtain ⟨hle, habsent⟩ := missing_spec hb
      exact ⟨habsent, best, .inl hbest, hle⟩
  · have hb : b ∈ missingAnnounced D s nodeid := by
      unfold fill at hb
      split at hb
      · exact mem_of_mem_take hb
      · exact hb
    unfold missingAnnounced at hb
    split at hb
    · rename_i announced best hannounced hbest
      split at hb
      · obtain ⟨hle, habsent⟩ := missing_spec hb
        exact ⟨habsent, announced, .inr hannounced, hle⟩
      · cases hb
    · cases hb

/-- The second search adds nothing, or finds room and other blocks. -/
theorem chosen_fits_iff (D : DownloadParams) (s : DownloadState genesis) (nodeid : NodeId)
    (count : Nat) :
    (chosen D s nodeid count).Nodup ∧ (chosen D s nodeid count).length ≤ count ↔
      missingAnnounced D s nodeid = [] ∨ ((missingBest D s nodeid).length < count ∧
        ∀ b ∈ (missingAnnounced D s nodeid).take (count - (missingBest D s nodeid).length),
          b ∉ missingBest D s nodeid) := by
  have hbest : (missingBest D s nodeid).Nodup := nodup_missingBest
  have hannounced : (missingAnnounced D s nodeid).Nodup := nodup_missingAnnounced
  unfold chosen
  generalize missingBest D s nodeid = M at *
  generalize missingAnnounced D s nodeid = A at *
  rcases Nat.lt_or_ge M.length count with hlt | hge
  · -- the first search leaves room, and the second one fills it up
    rw [take_of_length_le hlt.le, fill, if_pos hlt, nodup_append, length_append,
      length_take]
    constructor
    · rintro ⟨⟨-, -, hdisjoint⟩, -⟩
      exact .inr ⟨hlt, fun b hb hmem => hdisjoint b hmem b hb rfl⟩
    · intro h
      refine ⟨⟨hbest, hannounced.sublist (take_sublist _ _), ?_⟩, by omega⟩
      rintro b hmem _ hb rfl
      rcases h with rfl | ⟨-, hnot⟩
      · rw [take_nil] at hb
        cases hb
      · exact hnot b hb hmem
  · -- the vector is full, and whatever is added is too much
    have hlength : (M.take count).length = count := by
      rw [length_take]
      omega
    rw [hlength, fill, if_neg (Nat.lt_irrefl count), length_append, hlength]
    constructor
    · rintro ⟨-, hle⟩
      exact .inl (eq_nil_of_length_eq_zero (by omega))
    · rintro (rfl | ⟨hlt, -⟩)
      · rw [append_nil]
        exact ⟨hbest.sublist (take_sublist _ _), by simp⟩
      · omega

/-! ### Whole runs -/

theorem Consistent.acceptHeader (hs : s.Consistent D) (b : CBlockIndex) :
    (s.acceptHeader b).Consistent D := by
  unfold DownloadState.acceptHeader
  split
  · exact hs
  · split
    · have hmore : ∀ {a : CBlockIndex}, a ∈ s.index.blocks → a ∈ b :: s.index.blocks :=
        fun ha => mem_cons_of_mem b ha
      refine ⟨hs.branch, ?_, fun nodeid => ?_⟩
      · obtain ⟨t, ht, htip⟩ := hs.tip
        exact ⟨t, hmore ht, htip⟩
      · have hpeer := hs.peers nodeid
        exact ⟨fun a ha => hmore (hpeer.best a ha), fun a ha => hmore (hpeer.common a ha),
          fun a ha => hmore (hpeer.commonAnnounced a ha), fun a ha =>
            ⟨hmore (hpeer.announced a ha).1, (hpeer.announced a ha).2⟩⟩
    · exact hs

theorem Consistent.step (hs : s.Consistent D) {op : DownloadOp}
    (hstep : s.step D op = .ok s') : s'.Consistent D := by
  cases op with
  | acceptHeader b =>
    obtain rfl := pure_eq_ok_iff.mp hstep
    exact hs.acceptHeader b
  | setStatus b nStatus nChainTx =>
    obtain rfl := pure_eq_ok_iff.mp hstep
    exact ⟨hs.branch, hs.tip, hs.peers⟩
  | setTip hash =>
    simp only [DownloadState.step] at hstep
    split at hstep
    · obtain rfl := pure_eq_ok_iff.mp hstep
      exact hs
    · rename_i b hlookup
      obtain rfl := pure_eq_ok_iff.mp hstep
      obtain ⟨htip, hbranch⟩ := hs.branch.tip_setTip (some b)
      exact ⟨hbranch, ⟨b, mem_of_lookup hlookup, htip⟩, hs.peers⟩
  | initializeNode nodeid fHaveWitness =>
    obtain rfl := pure_eq_ok_iff.mp hstep
    have hnew : ({ fHaveWitness } : PeerBlocks).Known D s.index := by
      constructor <;> (intro b hb; cases hb)
    have hmodified := hs.modifyPeer nodeid (f := fun _ => { fHaveWitness }) fun _ => hnew
    exact ⟨hmodified.branch, hmodified.tip, hmodified.peers⟩
  | updateBlockAvailability nodeid hash =>
    obtain rfl := pure_eq_ok_iff.mp hstep
    exact hs.updateBlockAvailability nodeid hash
  | updateBestChainTip nodeid tip =>
    obtain rfl := pure_eq_ok_iff.mp hstep
    exact hs.updateBestChainTip nodeid tip
  | markBlockAsReceived hash =>
    obtain rfl := pure_eq_ok_iff.mp hstep
    exact hs.of_tracked sameBlocks_markBlockAsReceived fun _ => tracked_markBlockAsReceived
  | markBlockAsInFlight nodeid hash =>
    simp only [DownloadState.step] at hstep
    split at hstep
    · obtain rfl := pure_eq_ok_iff.mp hstep
      exact hs.of_tracked (sameBlocks_markBlockAsInFlight s nodeid hash)
        fun _ => tracked_markBlockAsInFlight
    · obtain rfl := pure_eq_ok_iff.mp hstep
      exact hs
  | requestBlocks nodeid mayFetch nNow =>
    simp only [DownloadState.step, bind_eq_ok] at hstep
    obtain ⟨⟨v, s₁⟩, hrequest, hstep⟩ := hstep
    obtain rfl := pure_eq_ok_iff.mp hstep
    cases hfetch : mayFetch && decide ((s.peer nodeid).nBlocksInFlight <
        MAX_BLOCKS_IN_TRANSIT_PER_PEER) with
    | true =>
      obtain ⟨rfl, hslots⟩ := Bool.and_eq_true_iff.mp hfetch
      obtain ⟨-, -, s₂, heq, -, -, hs₂⟩ := hs.requestBlocks (of_decide_eq_true hslots) nNow
      obtain ⟨-, rfl⟩ := Prod.mk.inj (Except.ok.inj (heq.symm.trans hrequest))
      exact hs₂
    | false =>
      rw [DownloadState.requestBlocks, hfetch] at hrequest
      obtain ⟨-, rfl⟩ := Prod.mk.inj (pure_eq_ok_iff.mp hrequest)
      exact hs

theorem consistent_after {root : genesis.pprev = none} {ops : List DownloadOp}
    (h : after D root ops = .ok s) : s.Consistent D := by
  have hinitial : (initial root).Consistent D := by
    obtain ⟨htip, hbranch⟩ := isBranch_empty.tip_setTip (some genesis)
    refine ⟨hbranch, ⟨genesis, mem_cons_self, htip⟩, fun _ => ?_⟩
    constructor <;> (intro b hb; cases hb)
  exact foldlM_induction (fun _ s => s.Consistent D)
    (fun _ _ _ _ hs hstep => hs.step hstep) hinitial h

/-! ### Requests that are well chosen -/

/-- Distinct, absent, not in flight, below one the peer has, within the limit. -/
def RequestOk (D : DownloadParams) (s : DownloadState genesis) (nodeid : NodeId)
    (mayFetch : Bool) (nNow : Int) : Prop :=
  ∃ vToDownload s', s.requestBlocks D nodeid mayFetch nNow = .ok (vToDownload, s') ∧
    vToDownload.Nodup ∧
    (∀ b ∈ vToDownload, s.downloaded b = false ∧ s.flightOf b.getBlockHash = none ∧
      ∃ known, ((s'.peer nodeid).pindexBestKnownBlock = some known ∨
        (s'.peer nodeid).pindexLastAnnouncedBlock = some known) ∧ b ≤ known) ∧
    (s'.peer nodeid).nBlocksInFlight ≤ MAX_BLOCKS_IN_TRANSIT_PER_PEER

/-- The second search adds nothing, or other blocks for which there is room. -/
def RoomForBoth (D : DownloadParams) (s : DownloadState genesis) (nodeid : NodeId)
    (mayFetch : Bool) : Prop :=
  (s.peer nodeid).nBlocksInFlight ≤ MAX_BLOCKS_IN_TRANSIT_PER_PEER ∧
  (mayFetch = true → (s.peer nodeid).nBlocksInFlight < MAX_BLOCKS_IN_TRANSIT_PER_PEER →
    missingAnnounced D (s.processBlockAvailability D nodeid) nodeid = [] ∨
    ((missingBest D (s.processBlockAvailability D nodeid) nodeid).length < s.slots nodeid ∧
      ∀ b ∈ (missingAnnounced D (s.processBlockAvailability D nodeid) nodeid).take
          (s.slots nodeid - (missingBest D (s.processBlockAvailability D nodeid) nodeid).length),
        b ∉ missingBest D (s.processBlockAvailability D nodeid) nodeid))

theorem Consistent.nodup_hashes (hs : s.Consistent D) (hnodup : (chosen D s nodeid count).Nodup) :
    ((chosen D s nodeid count).map getBlockHash).Nodup := by
  have hmem : ∀ b ∈ chosen D s nodeid count, b ∈ s.index.blocks := by
    intro b hb
    obtain ⟨-, known, hknown, hle⟩ := chosen_spec hb
    rcases hknown with hbest | hannounced
    · exact mem_of_le ((hs.peers nodeid).best known hbest) hle
    · exact mem_of_le ((hs.peers nodeid).announced known hannounced).1 hle
  exact hnodup.map_on fun a ha b hb heq => s.index.keyed a (hmem a ha) b (hmem b hb) heq

theorem Consistent.after_requestBlocks (hs : s.Consistent D)
    (hslots : (s.peer nodeid).nBlocksInFlight < MAX_BLOCKS_IN_TRANSIT_PER_PEER) (nNow : Int) :
    ∃ s', s.requestBlocks D nodeid true nNow =
        .ok (chosen D (s.processBlockAvailability D nodeid) nodeid (s.slots nodeid), s') ∧
      (s'.peer nodeid).pindexBestKnownBlock =
        ((s.processBlockAvailability D nodeid).peer nodeid).pindexBestKnownBlock ∧
      (s'.peer nodeid).pindexLastAnnouncedBlock =
        ((s.processBlockAvailability D nodeid).peer nodeid).pindexLastAnnouncedBlock ∧
      ((chosen D (s.processBlockAvailability D nodeid) nodeid (s.slots nodeid)).Nodup →
        (s'.peer nodeid).nBlocksInFlight = (s.peer nodeid).nBlocksInFlight +
          (chosen D (s.processBlockAvailability D nodeid) nodeid (s.slots nodeid)).length) := by
  have hs₁ := hs.processBlockAvailability nodeid
  have hcount := (processBlockAvailability_keeps D s nodeid).2.2.2
  obtain ⟨f, staller, s', heq, hs', hf, -⟩ := hs.requestBlocks hslots nNow
  generalize hs₁def : s.processBlockAvailability D nodeid = s₁ at *
  generalize hlist : chosen D s₁ nodeid (s.slots nodeid) = list at *
  obtain ⟨-, htracked⟩ := markAll_keeps nodeid list (s₁.modifyPeer nodeid f)
  have htracked : (s'.peer nodeid).tracked = (f (s₁.peer nodeid)).tracked := by
    rw [hs', tracked_noteStaller, htracked, peer_modifyPeer]
  simp only [PeerBlocks.tracked, Prod.mk.injEq] at htracked
  obtain ⟨hflight, hbest, hannounced⟩ := hf (s₁.peer nodeid)
  refine ⟨s', heq, htracked.1.trans hbest, htracked.2.2.1.trans hannounced, fun hnodup => ?_⟩
  rw [hs', nBlocksInFlight_noteStaller, nBlocksInFlight_markAll, peer_modifyPeer, hflight, hcount]
  · intro b hb
    rw [← hlist] at hb
    have habsent := (chosen_spec hb).1
    simp only [absent, Bool.and_eq_true, Option.isNone_iff_eq_none] at habsent
    exact habsent.2
  · rw [← hlist] at hnodup ⊢
    exact hs₁.nodup_hashes hnodup

/-- Requests are well chosen just when there is room for both searches. -/
theorem requestBlocks_ok_iff {root : genesis.pprev = none} {ops : List DownloadOp}
    (hrun : after D root ops = .ok s) (nodeid : NodeId) (mayFetch : Bool) (nNow : Int) :
    RequestOk D s nodeid mayFetch nNow ↔ RoomForBoth D s nodeid mayFetch := by
  have hs := consistent_after hrun
  by_cases hfetch : mayFetch = true ∧
      (s.peer nodeid).nBlocksInFlight < MAX_BLOCKS_IN_TRANSIT_PER_PEER
  · obtain ⟨rfl, hslots⟩ := hfetch
    obtain ⟨s', heq, hbest, hannounced, hcount⟩ := hs.after_requestBlocks hslots nNow
    have hfits := chosen_fits_iff D (s.processBlockAvailability D nodeid) nodeid (s.slots nodeid)
    have hlimit : (s.peer nodeid).nBlocksInFlight + s.slots nodeid =
        MAX_BLOCKS_IN_TRANSIT_PER_PEER := Nat.add_sub_of_le hslots.le
    constructor
    · rintro ⟨v, s₂, hrequest, hnodup, -, hle⟩
      obtain ⟨rfl, rfl⟩ := Prod.mk.inj (Except.ok.inj (heq.symm.trans hrequest))
      refine ⟨hslots.le, fun _ _ => hfits.mp ⟨hnodup, ?_⟩⟩
      rw [hcount hnodup] at hle
      omega
    · rintro ⟨-, hroom⟩
      obtain ⟨hnodup, hlength⟩ := hfits.mpr (hroom rfl hslots)
      refine ⟨_, s', heq, hnodup, fun b hb => ?_, ?_⟩
      · obtain ⟨habsent, known, hknown, hle⟩ := chosen_spec hb
        rw [absent_processBlockAvailability, absent, Bool.and_eq_true, Bool.not_eq_true',
          Option.isNone_iff_eq_none] at habsent
        rw [hbest, hannounced]
        exact ⟨habsent.1, habsent.2, known, hknown, hle⟩
      · rw [hcount hnodup]
        omega
  · have hidle : s.requestBlocks D nodeid mayFetch nNow = .ok ([], s) := by
      rw [DownloadState.requestBlocks, if_neg]
      · rfl
      · rw [Bool.and_eq_true, decide_eq_true_eq]
        exact hfetch
    constructor
    · rintro ⟨v, s₂, hrequest, -, -, hle⟩
      obtain ⟨-, rfl⟩ := Prod.mk.inj (Except.ok.inj (hidle.symm.trans hrequest))
      exact ⟨hle, fun hmay hlt => absurd ⟨hmay, hlt⟩ hfetch⟩
    · rintro ⟨hle, -⟩
      exact ⟨[], s, hidle, nodup_nil, by simp, hle⟩

end DownloadState

namespace Regtest

open DownloadState

def downloadParams : DownloadParams where
  nMinimumChainWork := 0
  segwitHeight := 0
  nChainWork := fun b => 2 * (b.nHeight + 1)

def rootIndex : CBlockIndex := ⟨⟨0, 1600000000⟩, []⟩

def headerOn (parent : CBlockIndex) (hash : UInt256) : CBlockIndex :=
  ⟨⟨hash, 1600000000⟩, parent.path⟩

def longBranch : Nat → CBlockIndex
  | 0 => rootIndex
  | n + 1 => headerOn (longBranch n) (BitVec.ofNat 256 (n + 1))

/-- A branch and one more block, which the peer announces as its best one. -/
def twoBranches (length : Nat) (fork : CBlockIndex) : List DownloadOp :=
  (List.range length).map (fun n => .acceptHeader (longBranch (n + 1))) ++
    [.acceptHeader fork, .updateBestChainTip 7 fork.getBlockHash,
      .updateBlockAvailability 7 (longBranch length).getBlockHash]

theorem rootIndex_pprev : rootIndex.pprev = none := rfl

def requested (ops : List DownloadOp) : Option (List CBlockIndex × Nat) := do
  let s ← (DownloadState.after downloadParams rootIndex_pprev ops).toOption
  let (vToDownload, s') ← (s.requestBlocks downloadParams 7 true 0).toOption
  some (vToDownload, (s'.peer 7).nBlocksInFlight)

theorem eq_ok_of_toOption {α : Type} {x : Run α} {a : α} (h : x.toOption = some a) : x = .ok a := by
  cases x with
  | error stop => cases h
  | ok b => exact congrArg Except.ok (Option.some.inj h)

theorem requested_spec {ops : List DownloadOp} {v : List CBlockIndex} {n : Nat}
    (h : requested ops = some (v, n)) :
    ∃ s s', DownloadState.after downloadParams rootIndex_pprev ops = .ok s ∧
      s.requestBlocks downloadParams 7 true 0 = .ok (v, s') ∧ (s'.peer 7).nBlocksInFlight = n := by
  obtain ⟨s, hs, h⟩ := Option.bind_eq_some_iff.mp h
  obtain ⟨⟨v', s'⟩, hs', h⟩ := Option.bind_eq_some_iff.mp h
  obtain ⟨rfl, rfl⟩ := Prod.mk.inj (Option.some.inj h)
  exact ⟨s, s', eq_ok_of_toOption hs, eq_ok_of_toOption hs', rfl⟩

/-- Only one branch is known, and its blocks are requested. -/
theorem oneBranch_requests_well :
    ∃ s, DownloadState.after downloadParams rootIndex_pprev
        (twoBranches 1 (longBranch 2)) = .ok s ∧ RequestOk downloadParams s 7 true 0 := by
  have hrun : (DownloadState.after downloadParams rootIndex_pprev
      (twoBranches 1 (longBranch 2))).toOption.map (fun s => ((s.peer 7).nBlocksInFlight,
        missingAnnounced downloadParams (s.processBlockAvailability downloadParams 7) 7)) =
      some (0, []) := by decide
  obtain ⟨s, hs, hvalue⟩ := Option.map_eq_some_iff.mp hrun
  obtain ⟨hflight, hmissing⟩ := Prod.mk.inj hvalue
  refine ⟨s, eq_ok_of_toOption hs, (requestBlocks_ok_iff (eq_ok_of_toOption hs) 7 true 0).mpr ?_⟩
  exact ⟨by rw [hflight]; decide, fun _ _ => .inl hmissing⟩

/-- A block below both branches is requested twice, or one above the limit. -/
theorem twoBranches_request_badly :
    (∃ s, DownloadState.after downloadParams rootIndex_pprev
        (twoBranches 2 (headerOn (longBranch 1) 101)) = .ok s ∧
      ¬ RequestOk downloadParams s 7 true 0) ∧
    ∃ s, DownloadState.after downloadParams rootIndex_pprev
        (twoBranches 16 (headerOn rootIndex 101)) = .ok s ∧
      ¬ RequestOk downloadParams s 7 true 0 := by
  constructor
  · have hrun : requested (twoBranches 2 (headerOn (longBranch 1) 101)) =
        some ([longBranch 1, longBranch 2, longBranch 1, headerOn (longBranch 1) 101], 3) := by
      decide
    obtain ⟨s, s', hs, hrequest, -⟩ := requested_spec hrun
    refine ⟨s, hs, ?_⟩
    rintro ⟨v, s₂, hrequest', hnodup, -⟩
    obtain ⟨rfl, -⟩ := Prod.mk.inj (Except.ok.inj (hrequest.symm.trans hrequest'))
    exact absurd hnodup (by decide)
  · have hrun : requested (twoBranches 16 (headerOn rootIndex 101)) =
        some ((List.range 16).map (fun n => longBranch (n + 1)) ++ [headerOn rootIndex 101],
          17) := by decide
    obtain ⟨s, s', hs, hrequest, hflight⟩ := requested_spec hrun
    refine ⟨s, hs, ?_⟩
    rintro ⟨v, s₂, hrequest', -, -, hle⟩
    obtain ⟨-, rfl⟩ := Prod.mk.inj (Except.ok.inj (hrequest.symm.trans hrequest'))
    rw [hflight] at hle
    exact absurd hle (by decide)

end Regtest

end VBitcoin
