import VBitcoin.Primitives
import VBitcoin.StdSort

/-!
**Which peer is disconnected when the node is full** (`net.cpp`) — `AttemptToEvictConnection`
with its comparators and `EraseLastKElements`.  A peer that is left has as many better ones as
were erased (`le_othersAsGood`); the loop over the groups keeps one that no other exceeds by
`groupRank`.
-/

namespace VBitcoin

open List

/-- Of `m_tx_relay`, `fRelayTxes` and whether `pfilter` is set. -/
structure CNode where
  id : Int
  nTimeConnected : Int
  nMinPingUsecTime : Int
  nLastBlockTime : Int
  nLastTXTime : Int
  nServices : UInt64
  m_tx_relay : Option (Bool × Bool)
  nKeyedNetGroup : UInt64
  m_prefer_evict : Bool
  fInbound : Bool
  noBan : Bool
  fDisconnect : Bool
  deriving DecidableEq

structure NodeEvictionCandidate where
  id : Int
  nTimeConnected : Int
  nMinPingUsecTime : Int
  nLastBlockTime : Int
  nLastTXTime : Int
  fRelevantServices : Bool
  fRelayTxes : Bool
  fBloomFilter : Bool
  nKeyedNetGroup : UInt64
  prefer_evict : Bool
  deriving DecidableEq

section Comparators

variable (a b : NodeEvictionCandidate)

def reverseCompareNodeMinPingTime : Bool := a.nMinPingUsecTime > b.nMinPingUsecTime

def reverseCompareNodeTimeConnected : Bool := a.nTimeConnected > b.nTimeConnected

def compareNetGroupKeyed : Bool := a.nKeyedNetGroup < b.nKeyedNetGroup

def compareNodeBlockTime : Bool :=
  if a.nLastBlockTime ≠ b.nLastBlockTime then a.nLastBlockTime < b.nLastBlockTime
  else if a.fRelevantServices ≠ b.fRelevantServices then b.fRelevantServices
  else a.nTimeConnected > b.nTimeConnected

def compareNodeTXTime : Bool :=
  if a.nLastTXTime ≠ b.nLastTXTime then a.nLastTXTime < b.nLastTXTime
  else if a.fRelayTxes ≠ b.fRelayTxes then b.fRelayTxes
  else if a.fBloomFilter ≠ b.fBloomFilter then a.fBloomFilter
  else a.nTimeConnected > b.nTimeConnected

end Comparators

abbrev Comparator := NodeEvictionCandidate → NodeEvictionCandidate → Bool

/-- The peers; `GetNewNodeId` gives no id twice. -/
structure Connections where
  vNodes : List CNode
  distinct : (vNodes.map CNode.id).Nodup

def NODE_NETWORK : UInt64 := 1

def NODE_WITNESS : UInt64 := 8

def NODE_NETWORK_LIMITED : UInt64 := 1024

section Evict

-- `downloaded` is `g_initial_block_download_completed`
variable (std : StdSort NodeEvictionCandidate) (downloaded : Bool)

def getDesirableServiceFlags (services : UInt64) : UInt64 :=
  if services &&& NODE_NETWORK_LIMITED ≠ 0 ∧ downloaded then NODE_NETWORK_LIMITED ||| NODE_WITNESS
  else NODE_NETWORK ||| NODE_WITNESS

def hasAllDesirableServiceFlags (services : UInt64) : Bool :=
  getDesirableServiceFlags downloaded services &&& ~~~services = 0

def eraseLastKElements (elements : List NodeEvictionCandidate) (comparator : Comparator)
    (k : Nat) : List NodeEvictionCandidate :=
  let elements := std.sort comparator elements
  elements.take (elements.length - min k elements.length)

def evictionCandidate (node : CNode) : NodeEvictionCandidate :=
  { node with
    fRelevantServices := hasAllDesirableServiceFlags downloaded node.nServices
    fRelayTxes := (node.m_tx_relay.map Prod.fst).getD false
    fBloomFilter := (node.m_tx_relay.map Prod.snd).getD false
    prefer_evict := node.m_prefer_evict }

def evictionCandidates (vNodes : List CNode) : List NodeEvictionCandidate :=
  (vNodes.filter fun node => !node.noBan && node.fInbound && !node.fDisconnect).map
    (evictionCandidate downloaded)

def unprotected (candidates : List NodeEvictionCandidate) : List NodeEvictionCandidate :=
  let candidates := eraseLastKElements std candidates compareNetGroupKeyed 4
  let candidates := eraseLastKElements std candidates reverseCompareNodeMinPingTime 8
  let candidates := eraseLastKElements std candidates compareNodeTXTime 4
  let candidates := eraseLastKElements std candidates compareNodeBlockTime 4
  eraseLastKElements std candidates reverseCompareNodeTimeConnected (candidates.length / 2)

/-- Only those that are preferred for eviction, if there is one. -/
def preferred (candidates : List NodeEvictionCandidate) : List NodeEvictionCandidate :=
  if candidates.any NodeEvictionCandidate.prefer_evict then
    candidates.filter NodeEvictionCandidate.prefer_evict
  else candidates

/-- `naMostConnections` is set in the first turn. -/
structure GroupSearch where
  naMostConnections : UInt64 := 0
  nMostConnections : Nat := 0
  nMostConnectionsTime : Int := 0
  mapNetGroupNodes : UInt64 → List NodeEvictionCandidate := fun _ => []

def GroupSearch.addNode (s : GroupSearch) (node : NodeEvictionCandidate) : GroupSearch :=
  let group := s.mapNetGroupNodes node.nKeyedNetGroup ++ [node]
  let grouptime := (group.headD node).nTimeConnected
  let mapNetGroupNodes := Function.update s.mapNetGroupNodes node.nKeyedNetGroup group
  if group.length > s.nMostConnections ∨
      (group.length = s.nMostConnections ∧ grouptime > s.nMostConnectionsTime) then
    { mapNetGroupNodes
      nMostConnections := group.length
      nMostConnectionsTime := grouptime
      naMostConnections := node.nKeyedNetGroup }
  else { s with mapNetGroupNodes }

def disconnectNode (evicted : Int) : List CNode → Bool × List CNode
  | [] => (false, [])
  | node :: rest =>
    if node.id = evicted then (true, { node with fDisconnect := true } :: rest)
    else
      let (found, rest) := disconnectNode evicted rest
      (found, node :: rest)

/-- `CConnman::AttemptToEvictConnection`; `front()` of no group is undefined. -/
def attemptToEvictConnection (vNodes : List CNode) : Run (Bool × List CNode) :=
  let left := unprotected std (evictionCandidates downloaded vNodes)
  if left.isEmpty then pure (false, vNodes)
  else
    let s := (preferred left).foldl GroupSearch.addNode {}
    match s.mapNetGroupNodes s.naMostConnections with
    | [] => .error (.undefined "vEvictionCandidates.front()")
    | evicted :: _ => pure (disconnectNode evicted.id vNodes)

end Evict

/-! ### Protections -/

section Protect

variable {std : StdSort NodeEvictionCandidate} {l candidates : List NodeEvictionCandidate}
  {lt : Comparator} {k : Nat} {p : NodeEvictionCandidate}

theorem eraseLastKElements_subperm : eraseLastKElements std l lt k <+~ l :=
  (take_sublist _ _).subperm.trans (std.perm lt l).subperm

def othersAsGood (candidates : List NodeEvictionCandidate) (p : NodeEvictionCandidate)
    (good : NodeEvictionCandidate → Bool) : Nat :=
  (candidates.filter fun q => q ≠ p && good q).length

/-- **Those that were erased** are as good as one that is left. -/
theorem le_othersAsGood {good : NodeEvictionCandidate → Bool} (hlt : StrictWeak lt)
    (hgood : ∀ q, lt q p = false → good q = true) (hnodup : candidates.Nodup)
    (hsub : l <+~ candidates) (hp : p ∈ eraseLastKElements std l lt k) :
    k ≤ othersAsGood candidates p good := by
  have hsorted := std.sorted lt hlt l
  have hperm : std.sort lt l <+~ candidates := (std.perm lt l).subperm.trans hsub
  obtain ⟨l', hl', hsublist⟩ := hperm
  have hdistinct : (std.sort lt l).Nodup := hl'.nodup_iff.mp (hsublist.nodup hnodup)
  unfold eraseLastKElements at hp
  dsimp only at hp
  generalize std.sort lt l = s at *
  rw [← take_append_drop (s.length - min k s.length) s] at hsorted hdistinct
  obtain ⟨-, -, hbefore⟩ := pairwise_append.mp hsorted
  obtain ⟨-, hdrop, hdisjoint⟩ := nodup_append'.mp hdistinct
  have hk : k ≤ s.length := by
    by_contra hmore
    rw [min_eq_right (not_le.mp hmore).le, Nat.sub_self] at hp
    exact absurd hp not_mem_nil
  calc k = (s.drop (s.length - min k s.length)).length := by
        rw [length_drop, min_eq_left hk]
        omega
    _ ≤ othersAsGood candidates p good := by
        refine (subperm_of_subset hdrop fun q hq => ?_).length_le
        have hne : q ≠ p := fun heq => hdisjoint hp (heq ▸ hq)
        refine mem_filter.mpr ⟨hsublist.subset (hl'.mem_iff.mpr (mem_of_mem_drop hq)), ?_⟩
        simp [hne, hgood q (hbefore p hp q hq)]

theorem strictWeak_ping : StrictWeak reverseCompareNodeMinPingTime := by
  unfold StrictWeak reverseCompareNodeMinPingTime
  grind

theorem strictWeak_connected : StrictWeak reverseCompareNodeTimeConnected := by
  unfold StrictWeak reverseCompareNodeTimeConnected
  grind

theorem strictWeak_tx : StrictWeak compareNodeTXTime := by
  unfold StrictWeak compareNodeTXTime
  grind

theorem strictWeak_block : StrictWeak compareNodeBlockTime := by
  unfold StrictWeak compareNodeBlockTime
  grind

/-- Enough others are as good, by each of the three measures. -/
structure NotProtected (candidates : List NodeEvictionCandidate) (p : NodeEvictionCandidate) :
    Prop where
  ping : 8 ≤ othersAsGood candidates p fun q => q.nMinPingUsecTime ≤ p.nMinPingUsecTime
  tx : 4 ≤ othersAsGood candidates p fun q => p.nLastTXTime ≤ q.nLastTXTime
  block : 4 ≤ othersAsGood candidates p fun q => p.nLastBlockTime ≤ q.nLastBlockTime

theorem notProtected_of_mem (hnodup : candidates.Nodup) (hp : p ∈ unprotected std candidates) :
    NotProtected candidates p := by
  have hgroups := @eraseLastKElements_subperm std candidates compareNetGroupKeyed 4
  have hping := (@eraseLastKElements_subperm std _ reverseCompareNodeMinPingTime 8).trans hgroups
  have htx := (@eraseLastKElements_subperm std _ compareNodeTXTime 4).trans hping
  have hp₄ := eraseLastKElements_subperm.subset hp
  have hp₃ := eraseLastKElements_subperm.subset hp₄
  have hp₂ := eraseLastKElements_subperm.subset hp₃
  refine ⟨le_othersAsGood strictWeak_ping ?_ hnodup hgroups hp₂,
    le_othersAsGood strictWeak_tx ?_ hnodup hping hp₃,
    le_othersAsGood strictWeak_block ?_ hnodup htx hp₄⟩
  · intro q hq
    simpa [reverseCompareNodeMinPingTime] using hq
  · intro q hq
    unfold compareNodeTXTime at hq
    grind
  · intro q hq
    unfold compareNodeBlockTime at hq
    grind

theorem unprotected_sorted (candidates : List NodeEvictionCandidate) :
    (preferred (unprotected std candidates)).Pairwise
      fun a b => b.nTimeConnected ≤ a.nTimeConnected := by
  have hsorted : (unprotected std candidates).Pairwise
      fun a b => b.nTimeConnected ≤ a.nTimeConnected :=
    ((std.sorted _ strictWeak_connected _).sublist (take_sublist _ _)).imp fun h => by
      simpa [reverseCompareNodeTimeConnected] using h
  unfold preferred
  split
  · exact hsorted.filter _
  · exact hsorted

end Protect

/-! ### Groups -/

section Groups

variable {done left : List NodeEvictionCandidate} {s : GroupSearch} {node : NodeEvictionCandidate}
  {group : UInt64}

def members (done : List NodeEvictionCandidate) (group : UInt64) : List NodeEvictionCandidate :=
  done.filter fun q => q.nKeyedNetGroup = group

/-- The size of a group and when its first member connected. -/
def groupRank (done : List NodeEvictionCandidate) (group : UInt64) : Nat ×ₗ Int :=
  toLex ((members done group).length,
    ((members done group).head?.map NodeEvictionCandidate.nTimeConnected).getD 0)

/-- After some nodes: the groups, and one that no other exceeds. -/
structure GroupSearch.Largest (done : List NodeEvictionCandidate) (s : GroupSearch) : Prop where
  groups : ∀ group, s.mapNetGroupNodes group = members done group
  most : groupRank done s.naMostConnections = toLex (s.nMostConnections, s.nMostConnectionsTime)
  le : ∀ group, groupRank done group ≤ toLex (s.nMostConnections, s.nMostConnectionsTime)

theorem members_of_ne (h : group ≠ node.nKeyedNetGroup) :
    members (done ++ [node]) group = members done group := by
  simp [members, h.symm]

theorem members_self : members (done ++ [node]) node.nKeyedNetGroup =
    members done node.nKeyedNetGroup ++ [node] := by
  simp [members]

theorem GroupSearch.Largest.addNode (h : s.Largest done) (node : NodeEvictionCandidate) :
    (s.addNode node).Largest (done ++ [node]) := by
  have hother : ∀ group ≠ node.nKeyedNetGroup, groupRank (done ++ [node]) group =
      groupRank done group := fun group hne => by rw [groupRank, members_of_ne hne, groupRank]
  have hself : groupRank (done ++ [node]) node.nKeyedNetGroup =
      toLex ((s.mapNetGroupNodes node.nKeyedNetGroup ++ [node]).length,
        ((s.mapNetGroupNodes node.nKeyedNetGroup ++ [node]).headD node).nTimeConnected) := by
    rw [groupRank, members_self, h.groups]
    cases members done node.nKeyedNetGroup <;> rfl
  have hgroups : ∀ group, Function.update s.mapNetGroupNodes node.nKeyedNetGroup
      (s.mapNetGroupNodes node.nKeyedNetGroup ++ [node]) group =
        members (done ++ [node]) group := by
    intro group
    by_cases hg : group = node.nKeyedNetGroup
    · rw [hg, Function.update_self, members_self, h.groups]
    · rw [Function.update_of_ne hg, members_of_ne hg, h.groups]
  unfold GroupSearch.addNode
  dsimp only
  split
  · next hmore =>
    have hlt : toLex (s.nMostConnections, s.nMostConnectionsTime) <
        groupRank (done ++ [node]) node.nKeyedNetGroup := by
      rw [hself, Prod.Lex.toLex_lt_toLex]
      exact hmore.imp_right fun hequal => ⟨hequal.1.symm, hequal.2⟩
    refine ⟨hgroups, hself, fun group => ?_⟩
    rw [← hself]
    by_cases hg : group = node.nKeyedNetGroup
    · rw [hg]
    · rw [hother group hg]
      exact (h.le group).trans hlt.le
  · next hnot =>
    have hle : groupRank (done ++ [node]) node.nKeyedNetGroup ≤
        toLex (s.nMostConnections, s.nMostConnectionsTime) := by
      rw [← not_lt, hself, Prod.Lex.toLex_lt_toLex]
      exact fun hlt => hnot (hlt.imp_right fun hequal => ⟨hequal.1.symm, hequal.2⟩)
    -- the largest group would have grown
    have hmost : s.naMostConnections ≠ node.nKeyedNetGroup := by
      intro heq
      have hsize : (members done node.nKeyedNetGroup).length = s.nMostConnections :=
        heq ▸ congrArg (fun rank => (ofLex rank).1) h.most
      apply hnot
      rw [h.groups, length_append, ← hsize]
      exact Or.inl (Nat.lt_succ_self _)
    refine ⟨hgroups, (hother _ hmost).trans h.most, fun group => ?_⟩
    by_cases hg : group = node.nKeyedNetGroup
    · rw [hg]
      exact hle
    · rw [hother group hg]
      exact h.le group

theorem largest_foldl {rest : List NodeEvictionCandidate} (h : s.Largest done) :
    (rest.foldl GroupSearch.addNode s).Largest (done ++ rest) := by
  induction rest generalizing done s with
  | nil => rwa [append_nil]
  | cons node rest ih =>
    have hnext := ih (h.addNode node)
    rwa [append_assoc, singleton_append] at hnext

def groupSize (left : List NodeEvictionCandidate) (p : NodeEvictionCandidate) : Nat :=
  (members left p.nKeyedNetGroup).length

/-- The latest member of a largest group, the latest such group. -/
structure Victim (left : List NodeEvictionCandidate) (p : NodeEvictionCandidate) : Prop where
  mem : p ∈ left
  best : ∀ q ∈ left, groupSize left q < groupSize left p ∨
    (groupSize left q = groupSize left p ∧ q.nTimeConnected ≤ p.nTimeConnected)

theorem exists_victim (hne : left ≠ [])
    (hsorted : left.Pairwise fun a b => b.nTimeConnected ≤ a.nTimeConnected)
    (h : s.Largest left) :
    ∃ p rest, s.mapNetGroupNodes s.naMostConnections = p :: rest ∧ Victim left p := by
  -- the group of a node has a first member, its youngest
  have hfirst : ∀ q ∈ left, ∃ q' rest, members left q.nKeyedNetGroup = q' :: rest ∧
      q.nTimeConnected ≤ q'.nTimeConnected := by
    intro q hq
    have hmem : q ∈ members left q.nKeyedNetGroup := mem_filter.mpr ⟨hq, by simp⟩
    have hgroup := hsorted.filter fun p => p.nKeyedNetGroup = q.nKeyedNetGroup
    rw [← members] at hgroup
    cases hmembers : members left q.nKeyedNetGroup with
    | nil => exact absurd hmem (by simp [hmembers])
    | cons q' rest =>
      rw [hmembers] at hmem hgroup
      refine ⟨q', rest, rfl, ?_⟩
      rcases mem_cons.mp hmem with rfl | hrest
      · exact le_rfl
      · exact (pairwise_cons.mp hgroup).1 q hrest
  have hle : ∀ group, groupRank left group ≤ groupRank left s.naMostConnections :=
    fun group => (h.le group).trans_eq h.most.symm
  cases hmost : members left s.naMostConnections with
  | nil =>
    obtain ⟨q, hq⟩ := exists_mem_of_ne_nil left hne
    obtain ⟨q', rest, hmembers, -⟩ := hfirst q hq
    have hrank := hle q.nKeyedNetGroup
    rw [groupRank, groupRank, hmembers, hmost, Prod.Lex.toLex_le_toLex] at hrank
    simp at hrank
  | cons p others =>
    obtain ⟨hp, hgroup⟩ := mem_filter.mp (hmost ▸ mem_cons_self : p ∈ members left _)
    rw [decide_eq_true_eq] at hgroup
    refine ⟨p, others, (h.groups _).trans hmost, hp, fun q hq => ?_⟩
    obtain ⟨q', rest, hmembers, hyoung⟩ := hfirst q hq
    have hrank := hle q.nKeyedNetGroup
    rw [groupRank, groupRank, Prod.Lex.toLex_le_toLex] at hrank
    rw [groupSize, groupSize, hgroup]
    refine hrank.imp_right fun hequal => ⟨hequal.1, hyoung.trans ?_⟩
    simpa [hmembers, hmost] using hequal.2

end Groups

/-! ### The attempt -/

theorem disconnectNode_eq {vNodes : List CNode} (hids : (vNodes.map CNode.id).Nodup) {v : CNode}
    (hv : v ∈ vNodes) : disconnectNode v.id vNodes = (true, vNodes.map fun node =>
      if node = v then { node with fDisconnect := true } else node) := by
  induction vNodes with
  | nil => exact absurd hv not_mem_nil
  | cons node rest ih =>
    rw [map_cons, nodup_cons] at hids
    rw [disconnectNode, map_cons]
    rcases mem_cons.mp hv with rfl | hrest
    · have hkeep : ∀ n ∈ rest, (if n = v then { n with fDisconnect := true } else n) = n := by
        intro n hn
        rw [if_neg]
        rintro rfl
        exact hids.1 (mem_map_of_mem hn)
      rw [if_pos rfl, if_pos rfl, map_congr_left hkeep, map_id']
    · have hne : node.id ≠ v.id := fun heq => hids.1 (heq ▸ mem_map_of_mem hrest)
      rw [if_neg hne, ih hids.2 hrest, if_neg fun heq => hne (congrArg CNode.id heq)]

section Main

variable (std : StdSort NodeEvictionCandidate) (downloaded : Bool)

theorem preferred_subset (l : List NodeEvictionCandidate) : preferred l ⊆ l := by
  unfold preferred
  split
  · exact filter_sublist.subset
  · exact Subset.refl _

theorem preferred_ne_nil {l : List NodeEvictionCandidate} (h : l ≠ []) : preferred l ≠ [] := by
  unfold preferred
  split
  · rename_i hany
    obtain ⟨p, hp, hprefer⟩ := any_eq_true.mp hany
    exact ne_nil_of_mem (mem_filter.mpr ⟨hp, hprefer⟩)
  · exact h

theorem unprotected_subperm (candidates : List NodeEvictionCandidate) :
    unprotected std candidates <+~ candidates :=
  eraseLastKElements_subperm.trans <| eraseLastKElements_subperm.trans <|
    eraseLastKElements_subperm.trans <| eraseLastKElements_subperm.trans eraseLastKElements_subperm

theorem nodup_evictionCandidates (peers : Connections) :
    (evictionCandidates downloaded peers.vNodes).Nodup := by
  apply Nodup.of_map NodeEvictionCandidate.id
  rw [evictionCandidates, map_map]
  exact peers.distinct.sublist (filter_sublist.map _)

end Main

end VBitcoin
