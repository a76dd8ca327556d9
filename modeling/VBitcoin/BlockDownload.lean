import VBitcoin.AcceptBlock
import VBitcoin.ActiveChain
import VBitcoin.TxDownload

/-!
**Choosing the blocks to request from a peer** (`net_processing.cpp`) — what a peer has,
`FindNextBlocksToDownload`, and the step of `SendMessages`.  The step may search twice into one
vector, and a search stops when it has *exactly* as many entries as there are free slots:
after a first search that filled it, the second does not stop, and it finds again what is
below both branches.
-/

namespace VBitcoin

open CBlockIndex CChain List

def BLOCK_DOWNLOAD_WINDOW : Nat := 1024

abbrev NodeId := Int

/-! ### The block index -/

/-- `mapBlockIndex`: blocks on one genesis block, by their hashes. -/
structure BlockIndexMap (genesis : CBlockIndex) where
  blocks : List CBlockIndex
  root : genesis.pprev = none
  rooted : ∀ b ∈ blocks, genesis ≤ b
  closed : ∀ b ∈ blocks, ∀ p, b.pprev = some p → p ∈ blocks
  keyed : ∀ a ∈ blocks, ∀ b ∈ blocks, a.getBlockHash = b.getBlockHash → a = b

namespace BlockIndexMap

variable {genesis : CBlockIndex}

def new (root : genesis.pprev = none) : BlockIndexMap genesis where
  blocks := [genesis]
  root := root
  rooted := by
    intro b hb
    rw [mem_singleton.mp hb]
  closed := by
    intro b hb p hp
    rw [mem_singleton.mp hb, root] at hp
    cases hp
  keyed := by
    intro a ha b hb _
    rw [mem_singleton.mp ha, mem_singleton.mp hb]

def lookup (index : BlockIndexMap genesis) (hash : UInt256) : Option CBlockIndex :=
  index.blocks.find? fun b => b.getBlockHash = hash

/-- `AddToBlockIndex` of a header whose parent is known and whose hash is not. -/
def add (index : BlockIndexMap genesis) (b p : CBlockIndex) (hprev : b.pprev = some p)
    (hp : p ∈ index.blocks) (hnew : ∀ a ∈ index.blocks, a.getBlockHash ≠ b.getBlockHash) :
    BlockIndexMap genesis where
  blocks := b :: index.blocks
  root := index.root
  rooted := by
    intro a ha
    rcases mem_cons.mp ha with rfl | ha
    · exact (index.rooted p hp).trans (pprev_le hprev)
    · exact index.rooted a ha
  closed := by
    intro a ha q hq
    rcases mem_cons.mp ha with rfl | ha
    · obtain rfl := Option.some.inj (hprev.symm.trans hq)
      exact mem_cons_of_mem _ hp
    · exact mem_cons_of_mem _ (index.closed a ha q hq)
  keyed := by
    intro a ha c hc heq
    rcases mem_cons.mp ha with rfl | hold
    · rcases mem_cons.mp hc with rfl | hc
      · rfl
      · exact absurd heq.symm (hnew c hc)
    · rcases mem_cons.mp hc with rfl | hc
      · exact absurd heq (hnew a hold)
      · exact index.keyed a hold c hc heq

variable {index : BlockIndexMap genesis} {b : CBlockIndex}

theorem mem_of_lookup {hash : UInt256} (h : index.lookup hash = some b) : b ∈ index.blocks :=
  mem_of_find?_eq_some h

theorem mem_of_le {a : CBlockIndex} (hb : b ∈ index.blocks) (hab : a ≤ b) : a ∈ index.blocks := by
  induction b using induction_pprev with
  | step b ih =>
    rcases hab.eq_or_lt with rfl | hlt
    · exact hb
    · obtain ⟨p, hp⟩ := exists_pprev_of_lt hlt
      exact ih p hp (index.closed b hb p hp) (le_pprev_of_lt hlt hp)

end BlockIndexMap

/-! ### The state -/

structure DownloadParams where
  nMinimumChainWork : Nat
  segwitHeight : Nat
  nChainWork : CBlockIndex → Nat

structure PeerBlocks where
  pindexBestKnownBlock : Option CBlockIndex := none
  hashLastUnknownBlock : UInt256 := 0
  pindexLastCommonBlock : Option CBlockIndex := none
  pindexLastAnnouncedBlock : Option CBlockIndex := none
  pindexLastCommonAnnouncedBlock : Option CBlockIndex := none
  fHaveWitness : Bool := true
  nBlocksInFlight : Nat := 0
  nStallingSince : Int := 0

def PeerBlocks.received (state : PeerBlocks) : PeerBlocks :=
  { state with nBlocksInFlight := state.nBlocksInFlight - 1, nStallingSince := 0 }

def PeerBlocks.started (state : PeerBlocks) : PeerBlocks :=
  { state with nBlocksInFlight := state.nBlocksInFlight + 1 }

structure DownloadState (genesis : CBlockIndex) where
  index : BlockIndexMap genesis
  nStatus : CBlockIndex → BlockStatus
  nChainTx : CBlockIndex → Nat
  chain : CChain
  inFlight : List (UInt256 × NodeId)
  peer : NodeId → PeerBlocks

namespace DownloadState

variable {genesis : CBlockIndex}

def modifyPeer (s : DownloadState genesis) (nodeid : NodeId) (f : PeerBlocks → PeerBlocks) :
    DownloadState genesis :=
  { s with peer := fun id => if id = nodeid then f (s.peer id) else s.peer id }

def flightOf (s : DownloadState genesis) (hash : UInt256) : Option NodeId :=
  (s.inFlight.find? fun entry => entry.1 = hash).map Prod.snd

def withInFlight (s : DownloadState genesis) (inFlight : List (UInt256 × NodeId)) :
    DownloadState genesis := { s with inFlight }

def markBlockAsReceived (s : DownloadState genesis) (hash : UInt256) : DownloadState genesis :=
  match s.flightOf hash with
  | none => s
  | some nodeid =>
    (s.modifyPeer nodeid PeerBlocks.received).withInFlight
      (s.inFlight.filter fun entry => entry.1 ≠ hash)

def markBlockAsInFlight (s : DownloadState genesis) (nodeid : NodeId) (hash : UInt256) :
    DownloadState genesis :=
  if s.flightOf hash = some nodeid then s
  else
    let s := s.markBlockAsReceived hash
    (s.modifyPeer nodeid PeerBlocks.started).withInFlight ((hash, nodeid) :: s.inFlight)

/-! ### What a peer is known to have -/

variable (D : DownloadParams)

def processBlockAvailability (s : DownloadState genesis) (nodeid : NodeId) :
    DownloadState genesis :=
  if (s.peer nodeid).hashLastUnknownBlock = 0 then s
  else
    match s.index.lookup (s.peer nodeid).hashLastUnknownBlock with
    | none => s
    | some pindex =>
      if 0 < D.nChainWork pindex then
        s.modifyPeer nodeid fun state =>
          { state with
            pindexBestKnownBlock := better D state.pindexBestKnownBlock pindex
            hashLastUnknownBlock := 0 }
      else s
where
  /-- A block with at least as much work takes the place of the best known one. -/
  better (D : DownloadParams) (best : Option CBlockIndex) (pindex : CBlockIndex) :
      Option CBlockIndex :=
    match best with
    | none => some pindex
    | some known => if D.nChainWork known ≤ D.nChainWork pindex then some pindex else some known

def updateBlockAvailability (s : DownloadState genesis) (nodeid : NodeId) (hash : UInt256) :
    DownloadState genesis :=
  let s := s.processBlockAvailability D nodeid
  match s.index.lookup hash with
  | some pindex =>
    if 0 < D.nChainWork pindex then
      s.modifyPeer nodeid fun state =>
        { state with
          pindexBestKnownBlock :=
            processBlockAvailability.better D state.pindexBestKnownBlock pindex }
    else s.modifyPeer nodeid fun state => { state with hashLastUnknownBlock := hash }
  | none => s.modifyPeer nodeid fun state => { state with hashLastUnknownBlock := hash }

def updateBestChainTip (s : DownloadState genesis) (nodeid : NodeId) (tip : UInt256) :
    DownloadState genesis :=
  let s :=
    match s.index.lookup tip with
    | some pindex =>
      if 0 < D.nChainWork pindex then
        s.modifyPeer nodeid fun state =>
          { state with
            pindexLastAnnouncedBlock := some pindex
            pindexBestKnownBlock :=
              processBlockAvailability.better D state.pindexBestKnownBlock pindex }
      else s
    | none => s
  s.processBlockAvailability D nodeid

/-! ### The search -/

/-- The variables of `FindNextBlocksToDownload` that its loops change. -/
structure Search where
  vBlocks : List CBlockIndex
  nodeStaller : NodeId
  lastCommonBlock : CBlockIndex
  waitingfor : NodeId := -1
  deriving DecidableEq

/-- `vToFetch`: the block and its ancestors, `nToFetch` in all, lowest first. -/
def toFetch : Nat → CBlockIndex → Run (List CBlockIndex)
  | 0, _ => pure []
  | 1, pindex => pure [pindex]
  | n + 2, pindex =>
    match pindex.pprev with
    | none => .error (.undefined "vToFetch[i]->pprev")
    | some pprev => do
      let below ← toFetch (n + 1) pprev
      pure (below ++ [pindex])

section Search

variable (s : DownloadState genesis) (nodeid : NodeId) (count nWindowEnd : Nat)

/-- The peer's chain is followed through the block. -/
def eligible (pindex : CBlockIndex) : Bool :=
  (s.nStatus pindex).isValid .BLOCK_VALID_TREE &&
    !(!(s.peer nodeid).fHaveWitness && decide (D.segwitHeight ≤ pindex.nHeight))

def downloaded (pindex : CBlockIndex) : Bool :=
  (s.nStatus pindex).haveData || s.chain.contains pindex

/-- The loop over `vToFetch`; the flag tells that the function returns. -/
def fetchLoop : List CBlockIndex → Search → Search × Bool
  | [], r => (r, false)
  | pindex :: vToFetch, r =>
    if !s.eligible D nodeid pindex then (r, true)
    else if s.downloaded pindex then
      fetchLoop vToFetch
        (if s.nChainTx pindex ≠ 0 then { r with lastCommonBlock := pindex } else r)
    else
      match s.flightOf pindex.getBlockHash with
      | none =>
        if nWindowEnd < pindex.nHeight then
          (if r.vBlocks.isEmpty && r.waitingfor != nodeid then
            { r with nodeStaller := r.waitingfor } else r, true)
        else
          let r := { r with vBlocks := r.vBlocks ++ [pindex] }
          if r.vBlocks.length = count then (r, true) else fetchLoop vToFetch r
      | some owner =>
        fetchLoop vToFetch (if r.waitingfor = -1 then { r with waitingfor := owner } else r)

def walkLoop (bestBlock : CBlockIndex) (nMaxHeight : Nat) : Nat → Nat → Search → Run Search
  | 0, _, r => pure r
  | fuel + 1, height, r =>
    if height < nMaxHeight then
      let nToFetch := min (nMaxHeight - height) (max (count - r.vBlocks.length) 128)
      match bestBlock.getAncestor (height + nToFetch) with
      | none => .error (.undefined "vToFetch[nToFetch - 1]->pprev")
      | some pindexWalk => do
        let vToFetch ← toFetch nToFetch pindexWalk
        match s.fetchLoop D nodeid count nWindowEnd vToFetch r with
        | (r, true) => pure r
        | (r, false) => walkLoop bestBlock nMaxHeight fuel (height + nToFetch) r
    else pure r

end Search

structure Found where
  vBlocks : List CBlockIndex
  nodeStaller : NodeId
  lastCommonBlock : Option CBlockIndex
  deriving DecidableEq

/-- The block from which a search goes on when there is none yet. -/
def guessLastCommon (s : DownloadState genesis) (bestBlock : CBlockIndex) : Option CBlockIndex :=
  s.chain.operatorAt (min (bestBlock.nHeight : Int) s.chain.height)

def findNextBlocksToDownload (s : DownloadState genesis) (nodeid : NodeId) (count : Nat)
    (found : Found) (bestBlock : CBlockIndex) : Run Found :=
  if count = 0 then pure found
  else if D.nChainWork bestBlock < D.nMinimumChainWork then pure found
  else
    match found.lastCommonBlock.or (s.guessLastCommon bestBlock) with
    | none => .error (.undefined "LastCommonAncestor(nullptr, bestBlock)")
    | some lastCommonBlock => do
      match ← lastCommonAncestor lastCommonBlock bestBlock with
      | none => .error (.undefined "(*lastCommonBlockOut)->nHeight")
      | some fork =>
        if fork = bestBlock then pure { found with lastCommonBlock := some fork }
        else
          let nWindowEnd := fork.nHeight + BLOCK_DOWNLOAD_WINDOW
          let nMaxHeight := min bestBlock.nHeight (nWindowEnd + 1)
          let r ← s.walkLoop D nodeid count nWindowEnd bestBlock nMaxHeight
            (nMaxHeight - fork.nHeight) fork.nHeight
            { vBlocks := found.vBlocks, nodeStaller := found.nodeStaller, lastCommonBlock := fork }
          pure ⟨r.vBlocks, r.nodeStaller, some r.lastCommonBlock⟩

/-! ### The step of `SendMessages` -/

def searchBest (s : DownloadState genesis) (nodeid : NodeId) (count : Nat) : Run Found :=
  let state := s.peer nodeid
  let found : Found := ⟨[], -1, state.pindexLastCommonBlock⟩
  match state.pindexBestKnownBlock with
  | none => pure found
  | some best => s.findNextBlocksToDownload D nodeid count found best

/-- The search towards the announced block, into the vector of the first one. -/
def searchAnnounced (s : DownloadState genesis) (nodeid : NodeId) (count : Nat)
    (found : Found) : Run Found :=
  let state := s.peer nodeid
  let found := { found with lastCommonBlock := state.pindexLastCommonAnnouncedBlock }
  match state.pindexLastAnnouncedBlock, state.pindexBestKnownBlock with
  | some announced, some best => do
    require (D.nChainWork announced ≤ D.nChainWork best)
      (.assertion "pindexLastAnnouncedBlock->nChainWork <= pindexBestKnownBlock->nChainWork")
    if best.getAncestor announced.nHeight ≠ some announced then
      s.findNextBlocksToDownload D nodeid count found announced
    else pure found
  | _, _ => pure found

def markAll (s : DownloadState genesis) (nodeid : NodeId) (vToDownload : List CBlockIndex) :
    DownloadState genesis :=
  vToDownload.foldl (fun s pindex => s.markBlockAsInFlight nodeid pindex.getBlockHash) s

def noteStaller (s : DownloadState genesis) (nodeid staller : NodeId) (nNow : Int) :
    DownloadState genesis :=
  if (s.peer nodeid).nBlocksInFlight = 0 ∧ staller ≠ -1 ∧ (s.peer staller).nStallingSince = 0 then
    s.modifyPeer staller fun state => { state with nStallingSince := nNow }
  else s

/-- `mayFetch` is the condition that is not about this state. -/
def requestBlocks (s : DownloadState genesis) (nodeid : NodeId) (mayFetch : Bool) (nNow : Int) :
    Run (List CBlockIndex × DownloadState genesis) :=
  if mayFetch && decide ((s.peer nodeid).nBlocksInFlight < MAX_BLOCKS_IN_TRANSIT_PER_PEER) then do
    let s := s.processBlockAvailability D nodeid
    let count := MAX_BLOCKS_IN_TRANSIT_PER_PEER - (s.peer nodeid).nBlocksInFlight
    let first ← s.searchBest D nodeid count
    let second ← s.searchAnnounced D nodeid count first
    let s := s.modifyPeer nodeid fun state =>
      { state with
        pindexLastCommonBlock := first.lastCommonBlock
        pindexLastCommonAnnouncedBlock := second.lastCommonBlock }
    let s := s.markAll nodeid second.vBlocks
    pure (second.vBlocks, s.noteStaller nodeid second.nodeStaller nNow)
  else pure ([], s)

end DownloadState

/-! ### The operations of the node -/

inductive DownloadOp where
  | acceptHeader (b : CBlockIndex)
  | setStatus (b : CBlockIndex) (nStatus : BlockStatus) (nChainTx : Nat)
  | setTip (hash : UInt256)
  /-- A new connection under this id; what the old one had in flight is given up. -/
  | initializeNode (nodeid : NodeId) (fHaveWitness : Bool)
  | updateBlockAvailability (nodeid : NodeId) (hash : UInt256)
  | updateBestChainTip (nodeid : NodeId) (tip : UInt256)
  | markBlockAsReceived (hash : UInt256)
  /-- A block is requested because of a headers or a compact block message. -/
  | markBlockAsInFlight (nodeid : NodeId) (hash : UInt256)
  | requestBlocks (nodeid : NodeId) (mayFetch : Bool) (nNow : Int)

namespace DownloadState

variable {genesis : CBlockIndex} (D : DownloadParams)

def initial (root : genesis.pprev = none) : DownloadState genesis where
  index := .new root
  nStatus := fun _ => { valid := .BLOCK_VALID_TREE }
  nChainTx := fun _ => 0
  chain := CChain.setTip {} (some genesis)
  inFlight := []
  peer := fun _ => {}

/-- A header whose parent is not known, or that is known, changes nothing. -/
def acceptHeader (s : DownloadState genesis) (b : CBlockIndex) : DownloadState genesis :=
  match hprev : b.pprev with
  | none => s
  | some p =>
    if h : p ∈ s.index.blocks ∧ ∀ a ∈ s.index.blocks, a.getBlockHash ≠ b.getBlockHash then
      { s with index := s.index.add b p hprev h.1 h.2 }
    else s

def step (s : DownloadState genesis) : DownloadOp → Run (DownloadState genesis)
  | .acceptHeader b => pure (s.acceptHeader b)
  | .setStatus b nStatus nChainTx =>
    pure { s with
      nStatus := fun a => if a = b then nStatus else s.nStatus a
      nChainTx := fun a => if a = b then nChainTx else s.nChainTx a }
  | .setTip hash =>
    match s.index.lookup hash with
    | none => pure s
    | some b => pure { s with chain := s.chain.setTip (some b) }
  | .initializeNode nodeid fHaveWitness =>
    pure { s.modifyPeer nodeid fun _ => { fHaveWitness } with
      inFlight := s.inFlight.filter fun entry => entry.2 ≠ nodeid }
  | .updateBlockAvailability nodeid hash => pure (s.updateBlockAvailability D nodeid hash)
  | .updateBestChainTip nodeid tip => pure (s.updateBestChainTip D nodeid tip)
  | .markBlockAsReceived hash => pure (s.markBlockAsReceived hash)
  | .markBlockAsInFlight nodeid hash =>
    if (s.peer nodeid).nBlocksInFlight < MAX_BLOCKS_IN_TRANSIT_PER_PEER then
      pure (s.markBlockAsInFlight nodeid hash)
    else pure s
  | .requestBlocks nodeid mayFetch nNow => do
    let (_, s) ← s.requestBlocks D nodeid mayFetch nNow
    pure s

def after (root : genesis.pprev = none) (ops : List DownloadOp) : Run (DownloadState genesis) :=
  ops.foldlM (fun s op => s.step D op) (initial root)

end DownloadState

/-! ### The blocks between a fork and a block -/

namespace CBlockIndex

variable {a b : CBlockIndex} {lo mid hi : Nat}

/-- The blocks of the branch of `b` above `lo` and up to `hi`, lowest first. -/
def between (b : CBlockIndex) (lo hi : Nat) : List CBlockIndex :=
  (List.range' (lo + 1) (hi - lo)).filterMap b.getAncestor

theorem mem_between : a ∈ b.between lo hi ↔ a ≤ b ∧ lo < a.nHeight ∧ a.nHeight ≤ hi := by
  rw [between, mem_filterMap]
  constructor
  · rintro ⟨h, hh, ha⟩
    obtain ⟨hab, rfl⟩ := getAncestor_eq_some.mp ha
    rw [mem_range'_1] at hh
    exact ⟨hab, by omega, by omega⟩
  · rintro ⟨hab, hlo, hhi⟩
    refine ⟨a.nHeight, ?_, getAncestor_eq_some.mpr ⟨hab, rfl⟩⟩
    rw [mem_range'_1]
    omega

theorem pairwise_between : (b.between lo hi).Pairwise fun x y => x.nHeight < y.nHeight := by
  rw [between, pairwise_filterMap]
  refine (pairwise_lt_range' (s := lo + 1) (n := hi - lo)).imp ?_
  intro h h' hlt x hx y hy
  rw [(getAncestor_eq_some.mp hx).2, (getAncestor_eq_some.mp hy).2]
  exact hlt

theorem nodup_between : (b.between lo hi).Nodup :=
  pairwise_between.imp fun hlt heq => by
    rw [heq] at hlt
    exact Nat.lt_irrefl _ hlt

theorem between_append (hlo : lo ≤ mid) (hhi : mid ≤ hi) :
    b.between lo mid ++ b.between mid hi = b.between lo hi := by
  rw [between, between, between, ← filterMap_append]
  congr 1
  have hmid : mid + 1 = lo + 1 + 1 * (mid - lo) := by omega
  rw [hmid, range'_append]
  congr 1
  omega

theorem between_of_le (hab : a ≤ b) (hhi : hi ≤ a.nHeight) : a.between lo hi = b.between lo hi := by
  apply filterMap_congr
  intro h hh
  rw [mem_range'_1] at hh
  obtain ⟨c, hca, rfl⟩ := a.exists_le_nHeight (h := h) (by omega)
  rw [getAncestor_eq_some_iff.mpr hca, getAncestor_eq_some_iff.mpr (hca.trans hab)]

theorem between_self (hb : 0 < b.nHeight) : b.between (b.nHeight - 1) b.nHeight = [b] := by
  have hone : b.nHeight - (b.nHeight - 1) = 1 := by omega
  have hself : b.getAncestor (b.nHeight - 1 + 1) = some b :=
    getAncestor_eq_some.mpr ⟨le_refl b, by omega⟩
  simp only [between, hone, range'_one, filterMap_cons, hself, filterMap_nil]

theorem between_of_nHeight_le (hlo : lo ≤ mid) (hb : b.nHeight ≤ mid) (hhi : mid ≤ hi) :
    b.between lo mid = b.between lo hi := by
  have hempty : b.between mid hi = [] := by
    rw [eq_nil_iff_forall_not_mem]
    intro a ha
    obtain ⟨hab, hlt, -⟩ := mem_between.mp ha
    have := nHeight_le hab
    omega
  rw [← between_append hlo hhi, hempty, append_nil]

end CBlockIndex

namespace DownloadState

variable {genesis : CBlockIndex} {D : DownloadParams} {s : DownloadState genesis}
  {nodeid : NodeId} {count nWindowEnd : Nat}

theorem toFetch_eq : ∀ {n : Nat} {pindex : CBlockIndex}, n ≤ pindex.nHeight →
    toFetch n pindex = .ok (pindex.between (pindex.nHeight - n) pindex.nHeight)
  | 0, pindex, _ => by
    simp [toFetch, between]
  | 1, pindex, hn => by
    rw [between_self hn]
    rfl
  | n + 2, pindex, hn => by
    cases hprev : pindex.pprev with
    | none =>
      have := nHeight_of_pprev_none hprev
      omega
    | some p =>
      have hheight := nHeight_pprev hprev
      have hp : p.nHeight = pindex.nHeight - 1 := by omega
      have hlo : p.nHeight - (n + 1) = pindex.nHeight - (n + 2) := by omega
      have hbelow : n + 1 ≤ p.nHeight := by omega
      simp only [toFetch, hprev, toFetch_eq hbelow, ok_bind]
      rw [between_of_le (pprev_le hprev) (le_refl _), hlo, hp, ← between_self (b := pindex) (by omega),
        between_append (by omega) (by omega)]
      rfl

/-! ### The search as one pass -/

theorem fetchLoop_append (l₁ l₂ : List CBlockIndex) : ∀ r : Search,
    s.fetchLoop D nodeid count nWindowEnd (l₁ ++ l₂) r =
      if (s.fetchLoop D nodeid count nWindowEnd l₁ r).2 then
        s.fetchLoop D nodeid count nWindowEnd l₁ r
      else s.fetchLoop D nodeid count nWindowEnd l₂ (s.fetchLoop D nodeid count nWindowEnd l₁ r).1 := by
  induction l₁ with
  | nil => exact fun _ => rfl
  | cons pindex l₁ ih =>
    intro r
    simp only [cons_append, fetchLoop]
    split
    · rfl
    · split
      · exact ih _
      · split
        · split
          · rfl
          · split
            · rfl
            · exact ih _
        · exact ih _

/-- All blocks up to `nMaxHeight`, however they are divided. -/
theorem walkLoop_eq {bestBlock : CBlockIndex} {nMaxHeight : Nat}
    (hmax : nMaxHeight ≤ bestBlock.nHeight) : ∀ {fuel height : Nat} {r : Search},
      height ≤ nMaxHeight → nMaxHeight - height ≤ fuel →
      s.walkLoop D nodeid count nWindowEnd bestBlock nMaxHeight fuel height r =
        .ok (s.fetchLoop D nodeid count nWindowEnd (bestBlock.between height nMaxHeight) r).1
  | 0, height, r, hheight, hfuel => by
    obtain rfl : height = nMaxHeight := by omega
    simp [walkLoop, between, fetchLoop]
  | fuel + 1, height, r, hheight, hfuel => by
    rcases hheight.eq_or_lt with rfl | hlt
    · simp [walkLoop, between, fetchLoop]
    · -- one round takes the blocks up to the height `mid`
      obtain ⟨n, hn, hpos, hle⟩ : ∃ n, n = min (nMaxHeight - height) (max (count - r.vBlocks.length) 128) ∧
          0 < n ∧ n ≤ nMaxHeight - height := ⟨_, rfl, by omega, by omega⟩
      obtain ⟨walk, hwalk, hwalkh⟩ := bestBlock.exists_le_nHeight (h := height + n) (by omega)
      have hancestor : bestBlock.getAncestor (height + n) = some walk :=
        getAncestor_eq_some.mpr ⟨hwalk, hwalkh⟩
      have hfetch : toFetch n walk = .ok (bestBlock.between height (height + n)) := by
        rw [toFetch_eq (by omega), hwalkh, Nat.add_sub_cancel, between_of_le hwalk (by omega)]
      have hsplit : bestBlock.between height (height + n) ++
          bestBlock.between (height + n) nMaxHeight = bestBlock.between height nMaxHeight :=
        between_append (by omega) (by omega)
      simp only [walkLoop, if_pos hlt, ← hn, hancestor, hfetch, ok_bind]
      rw [← hsplit, fetchLoop_append]
      split
      · rename_i r' hdone
        rw [hdone]
        rfl
      · rename_i r' hmore
        rw [hmore]
        exact walkLoop_eq hmax (by omega) (by omega)

def absent (s : DownloadState genesis) (pindex : CBlockIndex) : Bool :=
  !s.downloaded pindex && (s.flightOf pindex.getBlockHash).isNone

/-- As many as are missing to `count`, or all when the vector is full. -/
def fill (count length : Nat) (l : List CBlockIndex) : List CBlockIndex :=
  if length < count then l.take (count - length) else l

variable {length : Nat} {bestBlock : CBlockIndex} {lastCommonBlock : Option CBlockIndex}

theorem fill_nil : fill count length [] = [] := by
  simp [fill]

theorem fill_cons (pindex : CBlockIndex) (l : List CBlockIndex) :
    fill count length (pindex :: l) =
      pindex :: if length + 1 = count then [] else fill count (length + 1) l := by
  unfold fill
  split
  · rename_i hlt
    rw [show count - length = count - (length + 1) + 1 by omega, take_succ_cons]
    split
    · rename_i heq
      rw [show count - (length + 1) = 0 by omega, take_zero]
    · rw [if_pos (by omega)]
  · rw [if_neg (by omega), if_neg (by omega)]

theorem fetchLoop_vBlocks : ∀ {l : List CBlockIndex} {r : Search},
    l.Pairwise (fun x y => x.nHeight < y.nHeight) →
    (s.fetchLoop D nodeid count nWindowEnd l r).1.vBlocks = r.vBlocks ++
      fill count r.vBlocks.length ((l.takeWhile (s.eligible D nodeid)).filter fun b =>
        s.absent b && decide (b.nHeight ≤ nWindowEnd))
  | [], r, _ => by simp [fetchLoop, fill_nil]
  | pindex :: l, r, hl => by
    obtain ⟨hhead, htail⟩ := pairwise_cons.mp hl
    rw [fetchLoop, takeWhile_cons]
    by_cases heligible : s.eligible D nodeid pindex = true
    · simp only [heligible, Bool.not_true, Bool.false_eq_true, if_false, if_true]
      by_cases hdown : s.downloaded pindex = true
      · have hsame : (if s.nChainTx pindex ≠ 0 then { r with lastCommonBlock := pindex }
            else r).vBlocks = r.vBlocks := by split <;> rfl
        rw [if_pos hdown, fetchLoop_vBlocks htail, hsame,
          filter_cons_of_neg (by simp [absent, hdown])]
      · rw [if_neg hdown]
        cases hflight : s.flightOf pindex.getBlockHash with
        | none =>
          have habsent : s.absent pindex = true := by simp [absent, hdown, hflight]
          simp only
          by_cases hbeyond : nWindowEnd < pindex.nHeight
          · -- the blocks after one beyond the window are beyond it, too
            have hnone : (pindex :: l.takeWhile (s.eligible D nodeid)).filter (fun b =>
                s.absent b && decide (b.nHeight ≤ nWindowEnd)) = [] := by
              rw [filter_eq_nil_iff]
              intro b hb
              have hheight : nWindowEnd < b.nHeight := by
                rcases mem_cons.mp hb with rfl | hb
                · exact hbeyond
                · exact hbeyond.trans (hhead b ((takeWhile_sublist _).subset hb))
              simp [Nat.not_le.mpr hheight]
            rw [if_pos hbeyond, hnone, fill_nil, append_nil]
            split <;> rfl
          · have hkept : (s.absent pindex && decide (pindex.nHeight ≤ nWindowEnd)) = true := by
              rw [habsent, Bool.true_and]
              exact decide_eq_true (Nat.le_of_not_lt hbeyond)
            rw [if_neg hbeyond, filter_cons_of_pos (by exact hkept), fill_cons]
            have hlength : (r.vBlocks ++ [pindex]).length = r.vBlocks.length + 1 :=
              length_append
            by_cases hfull : r.vBlocks.length + 1 = count
            · rw [if_pos (hlength.trans hfull), if_pos hfull]
            · rw [if_neg (hlength.symm ▸ hfull), if_neg hfull, fetchLoop_vBlocks htail, hlength,
                append_assoc]
              rfl
        | some owner =>
          have hsame : (if r.waitingfor = -1 then { r with waitingfor := owner }
              else r).vBlocks = r.vBlocks := by split <;> rfl
          simp only
          rw [fetchLoop_vBlocks htail, hsame,
            filter_cons_of_neg (by simp [absent, hflight])]
    · simp [heligible, fill_nil]

/-! ### What a search finds -/

/-- What may be asked for, up to the first block that stops the search. -/
def missing (D : DownloadParams) (s : DownloadState genesis) (nodeid : NodeId)
    (lastCommonBlock : Option CBlockIndex) (bestBlock : CBlockIndex) : List CBlockIndex :=
  if D.nChainWork bestBlock < D.nMinimumChainWork then []
  else
    match lastCommonBlock.or (s.guessLastCommon bestBlock) with
    | none => []
    | some common =>
      match lastCommonAncestor common bestBlock with
      | .ok (some fork) =>
        ((bestBlock.between fork.nHeight (fork.nHeight + BLOCK_DOWNLOAD_WINDOW)).takeWhile
          (s.eligible D nodeid)).filter s.absent
      | _ => []

theorem filter_window {fork : CBlockIndex} (hfork : fork ≤ bestBlock) :
    ((bestBlock.between fork.nHeight (min bestBlock.nHeight
        (fork.nHeight + BLOCK_DOWNLOAD_WINDOW + 1))).takeWhile (s.eligible D nodeid)).filter
      (fun b => s.absent b && decide (b.nHeight ≤ fork.nHeight + BLOCK_DOWNLOAD_WINDOW)) =
    ((bestBlock.between fork.nHeight (fork.nHeight + BLOCK_DOWNLOAD_WINDOW)).takeWhile
      (s.eligible D nodeid)).filter s.absent := by
  have hle := nHeight_le hfork
  have hinside : ∀ hi ≤ fork.nHeight + BLOCK_DOWNLOAD_WINDOW,
      ((bestBlock.between fork.nHeight hi).takeWhile (s.eligible D nodeid)).filter
        (fun b => s.absent b && decide (b.nHeight ≤ fork.nHeight + BLOCK_DOWNLOAD_WINDOW)) =
      ((bestBlock.between fork.nHeight hi).takeWhile (s.eligible D nodeid)).filter s.absent := by
    intro hi hhi
    apply filter_congr
    intro b hb
    obtain ⟨-, -, hb⟩ := mem_between.mp ((takeWhile_sublist _).subset hb)
    rw [decide_eq_true (hb.trans hhi), Bool.and_true]
  rcases Nat.le_total bestBlock.nHeight (fork.nHeight + BLOCK_DOWNLOAD_WINDOW) with hlow | hhigh
  · rw [Nat.min_eq_left (by omega), hinside _ hlow,
      between_of_nHeight_le hle (le_refl _) hlow]
  · rcases hhigh.eq_or_lt with heq | hlt
    · rw [Nat.min_eq_left (by omega), hinside _ (le_of_eq heq.symm), ← heq]
    · have hsplit : bestBlock.between fork.nHeight (fork.nHeight + BLOCK_DOWNLOAD_WINDOW) ++
          bestBlock.between (fork.nHeight + BLOCK_DOWNLOAD_WINDOW)
            (fork.nHeight + BLOCK_DOWNLOAD_WINDOW + 1) =
          bestBlock.between fork.nHeight (fork.nHeight + BLOCK_DOWNLOAD_WINDOW + 1) :=
        between_append (by omega) (by omega)
      rw [Nat.min_eq_right (by omega), ← hsplit, ← hinside _ (le_refl _), takeWhile_append]
      split
      · rename_i hall
        rw [( takeWhile_prefix _).eq_of_length hall, filter_append]
        have hbeyond : ((bestBlock.between (fork.nHeight + BLOCK_DOWNLOAD_WINDOW)
            (fork.nHeight + BLOCK_DOWNLOAD_WINDOW + 1)).takeWhile (s.eligible D nodeid)).filter
              (fun b => s.absent b && decide (b.nHeight ≤ fork.nHeight + BLOCK_DOWNLOAD_WINDOW)) =
            [] := by
          rw [filter_eq_nil_iff]
          intro b hb
          obtain ⟨-, hb, -⟩ := mem_between.mp ((takeWhile_sublist _).subset hb)
          simp [Nat.not_le.mpr hb]
        rw [hbeyond, append_nil]
      · rfl

theorem missing_spec {b : CBlockIndex} (hb : b ∈ missing D s nodeid lastCommonBlock bestBlock) :
    b ≤ bestBlock ∧ s.absent b = true := by
  unfold missing at hb
  split at hb
  · cases hb
  · split at hb
    · cases hb
    · split at hb
      · obtain ⟨hb, habsent⟩ := mem_filter.mp hb
        exact ⟨(mem_between.mp ((takeWhile_sublist _).subset hb)).1, habsent⟩
      · cases hb

theorem nodup_missing : (missing D s nodeid lastCommonBlock bestBlock).Nodup := by
  unfold missing
  split
  · exact nodup_nil
  · split
    · exact nodup_nil
    · split
      · exact (nodup_between.sublist (takeWhile_sublist _)).filter _
      · exact nodup_nil

theorem fetchLoop_lastCommonBlock : ∀ {l : List CBlockIndex} {r : Search},
    (s.fetchLoop D nodeid count nWindowEnd l r).1.lastCommonBlock = r.lastCommonBlock ∨
      (s.fetchLoop D nodeid count nWindowEnd l r).1.lastCommonBlock ∈ l
  | [], r => .inl rfl
  | pindex :: l, r => by
    -- the blocks after the first one
    have hrest : ∀ r' : Search, r'.lastCommonBlock = r.lastCommonBlock ∨ r'.lastCommonBlock = pindex →
        (s.fetchLoop D nodeid count nWindowEnd l r').1.lastCommonBlock = r.lastCommonBlock ∨
          (s.fetchLoop D nodeid count nWindowEnd l r').1.lastCommonBlock ∈ pindex :: l := by
      intro r' hr'
      rcases fetchLoop_lastCommonBlock (l := l) (r := r') with heq | hmem
      · rw [heq]
        rcases hr' with heq | heq
        · exact .inl heq
        · exact .inr (heq ▸ mem_cons_self)
      · exact .inr (mem_cons_of_mem pindex hmem)
    unfold fetchLoop
    split
    · exact .inl rfl
    · split
      · apply hrest
        split
        · exact .inr rfl
        · exact .inl rfl
      · split
        · split
          · left
            split <;> rfl
          · simp only
            split
            · exact .inl rfl
            · exact hrest _ (.inl rfl)
        · apply hrest
          left
          split <;> rfl

end DownloadState

end VBitcoin
