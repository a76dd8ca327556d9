import VBitcoin.ChainStateFacts

/-!
**Which blocks have their data** — `nChainTx` is set for the blocks whose ancestors all have
their data; the others wait in `m_blocks_unlinked` for their parent (`DataOk`).  It is an
`unsigned int` and would look like none at a multiple of 2^32: `chainTx` is the true number.
-/

namespace VBitcoin

open List CBlockIndex

namespace ChainState

/-- The number of transactions up to a block, given its path. -/
def chainTx (s : ChainState) : List IndexEntry → Nat
  | [] => 0
  | entry :: rest => (s.fields ⟨entry, rest⟩).nTx + chainTx s rest

variable {s s' s'' : ChainState} {b c p : CBlockIndex}

theorem chainTx_path : s.chainTx b.path = (s.fields b).nTx + s.chainTx b.ancestors := rfl

theorem chainTx_congr_path (path : List IndexEntry)
    (h : ∀ a : CBlockIndex, a.path <:+ path → (s'.fields a).nTx = (s.fields a).nTx) :
    s'.chainTx path = s.chainTx path := by
  induction path with
  | nil => rfl
  | cons entry rest ih =>
    rw [chainTx, chainTx, h ⟨entry, rest⟩ (suffix_refl _)]
    rw [ih fun a ha => h a (ha.trans (suffix_cons entry rest))]

theorem chainTx_congr (h : ∀ c, (s'.fields c).nTx = (s.fields c).nTx) (path : List IndexEntry) :
    s'.chainTx path = s.chainTx path :=
  chainTx_congr_path path fun a _ => h a

/-! ### Operations that leave the data alone -/

def Checked (s : ChainState) (b : CBlockIndex) : Prop :=
  Validity.BLOCK_VALID_TRANSACTIONS.level ≤ (s.status b).valid.level

structure SameData (s s' : ChainState) : Prop where
  index : s'.m_block_index = s.m_block_index
  unlinked : s'.m_blocks_unlinked = s.m_blocks_unlinked
  nTx : ∀ c, (s'.fields c).nTx = (s.fields c).nTx
  nChainTx : ∀ c, (s'.fields c).nChainTx = (s.fields c).nChainTx
  haveData : ∀ c, (s'.status c).haveData = (s.status c).haveData
  checked : ∀ c, s'.Checked c ↔ s.Checked c

theorem SameData.refl (s : ChainState) : SameData s s :=
  ⟨rfl, rfl, fun _ => rfl, fun _ => rfl, fun _ => rfl, fun _ => Iff.rfl⟩

theorem SameData.trans (h : SameData s s') (h' : SameData s' s'') : SameData s s'' where
  index := h'.index.trans h.index
  unlinked := h'.unlinked.trans h.unlinked
  nTx c := (h'.nTx c).trans (h.nTx c)
  nChainTx c := (h'.nChainTx c).trans (h.nChainTx c)
  haveData c := (h'.haveData c).trans (h.haveData c)
  checked c := (h'.checked c).trans (h.checked c)

theorem SameData.haveTxs (h : SameData s s') (c : CBlockIndex) :
    s'.haveTxsDownloaded c = s.haveTxsDownloaded c := by
  unfold haveTxsDownloaded
  rw [h.nChainTx]

theorem SameIndex.sameData (h : SameIndex s s') : SameData s s' where
  index := h.index
  unlinked := h.unlinked
  nTx c := by rw [h.fields]
  nChainTx c := by rw [h.fields]
  haveData c := by rw [h.status]
  checked c := by rw [Checked, Checked, h.status]

theorem sameData_modifyStatus {f : BlockStatus → BlockStatus}
    (hdata : ∀ status, (f status).haveData = status.haveData)
    (hchecked : Validity.BLOCK_VALID_TRANSACTIONS.level ≤ (f (s.status b)).valid.level ↔
      s.Checked b) :
    SameData s (s.modifyStatus b f) where
  index := rfl
  unlinked := rfl
  nTx c := modifyStatus_nTx s b c f
  nChainTx c := modifyStatus_nChainTx s b c f
  haveData c := by
    rw [modifyStatus_status]
    split
    · exact hdata _
    · rfl
  checked c := by
    unfold Checked
    rw [modifyStatus_status]
    split
    · next hc =>
      rw [hc]
      exact hchecked
    · rfl

variable {C : CBlockIndex → Prop} {new : CBlockIndex}

theorem Cleared.sameData (h : Cleared C s s') : SameData s s' where
  index := h.index
  unlinked := h.unlinked
  nTx := h.nTx
  nChainTx := h.nChainTx
  haveData c := by
    by_cases hC : C c
    · rw [h.cleared c hC]
      rfl
    · rw [h.kept c hC]
  checked c := by
    unfold Checked
    by_cases hC : C c
    · rw [h.cleared c hC]
      rfl
    · rw [h.kept c hC]

theorem Cleared.failed (h : Cleared C s s') (c : CBlockIndex) :
    s'.failed c = false ↔ s.failed c = false ∨ C c := by
  unfold ChainState.failed
  by_cases hC : C c
  · rw [h.cleared c hC]
    simp [hC]
  · rw [h.kept c hC]
    simp [hC]

/-! ### The invariant -/

/-- Blocks with data are linked, wait for their parent, or are in the queue. -/
structure DataOk (queue : List CBlockIndex) (s : ChainState) : Prop where
  closed : ∀ d ∈ s.m_block_index, ∀ a ≤ d, a ∈ s.m_block_index
  linked : ∀ b ∈ s.m_block_index, s.haveTxsDownloaded b = true →
    (s.status b).haveData = true ∧ ∀ p, b.pprev = some p → s.haveTxsDownloaded p = true
  checked : ∀ b ∈ s.m_block_index, (s.status b).haveData = true ↔ s.Checked b
  counted : ∀ b ∈ s.m_block_index, s.haveTxsDownloaded b = true →
    (s.fields b).nChainTx = s.chainTx b.path % 2 ^ 32
  waiting : ∀ b ∈ s.m_block_index, (s.status b).haveData = true → s.haveTxsDownloaded b = false →
    b ∈ queue ∨ ∃ p, b.pprev = some p ∧ s.haveTxsDownloaded p = false ∧ (p, b) ∈ s.m_blocks_unlinked
  unlinked : ∀ w ∈ s.m_blocks_unlinked, w.2.pprev = some w.1 ∧ w.2 ∈ s.m_block_index ∧
    (s.status w.2).haveData = true

variable {queue : List CBlockIndex}

theorem DataOk.sameData (h : DataOk queue s) (hsame : SameData s s') : DataOk queue s' := by
  have htxs := hsame.haveTxs
  refine ⟨?_, ?_, ?_, ?_, ?_, ?_⟩
  · rw [hsame.index]
    exact h.closed
  · intro b hb hlinked
    rw [hsame.index] at hb
    rw [htxs] at hlinked
    rw [hsame.haveData]
    simp only [htxs]
    exact h.linked b hb hlinked
  · intro b hb
    rw [hsame.index] at hb
    rw [hsame.haveData, hsame.checked]
    exact h.checked b hb
  · intro b hb hlinked
    rw [hsame.index] at hb
    rw [htxs] at hlinked
    rw [hsame.nChainTx, chainTx_congr hsame.nTx]
    exact h.counted b hb hlinked
  · intro b hb hdata hnot
    rw [hsame.index] at hb
    rw [hsame.haveData] at hdata
    rw [htxs] at hnot
    simp only [htxs, hsame.unlinked]
    exact h.waiting b hb hdata hnot
  · intro w hw
    rw [hsame.unlinked] at hw
    rw [hsame.index, hsame.haveData]
    exact h.unlinked w hw

theorem DataOk.below (h : DataOk queue s) {a : CBlockIndex}
    (hb : b ∈ s.m_block_index) (hlinked : s.haveTxsDownloaded b = true) (hle : a ≤ b) :
    s.haveTxsDownloaded a = true ∧ (s.status a).haveData = true := by
  induction b using induction_pprev with
  | step b ih =>
    rcases hle.eq_or_lt with rfl | hlt
    · exact ⟨hlinked, (h.linked a hb hlinked).1⟩
    · obtain ⟨p, hp⟩ := exists_pprev_of_lt hlt
      exact ih p hp (h.closed b hb p (pprev_le hp)) ((h.linked b hb hlinked).2 p hp)
        (le_pprev_of_lt hlt hp)

theorem DataOk.linked_of_data (h : DataOk [] s) (hb : b ∈ s.m_block_index)
    (hdata : ∀ a ≤ b, (s.status a).haveData = true) : s.haveTxsDownloaded b = true := by
  induction b using induction_pprev with
  | step b ih =>
    by_contra hnot
    rw [Bool.not_eq_true] at hnot
    rcases h.waiting b hb (hdata b (le_refl b)) hnot with hqueue | ⟨p, hp, hparent, -⟩
    · cases hqueue
    · have := ih p hp (h.closed b hb p (pprev_le hp))
        fun a ha => hdata a (ha.trans (pprev_le hp))
      rw [hparent] at this
      cases this

/-! ### Linking blocks -/

open NodeEnv

theorem linkBlock_counted (h : DataOk queue s) (hb : b ∈ s.m_block_index)
    (hparent : ∀ p, b.pprev = some p → s.haveTxsDownloaded p = true) :
    ((linkBlock s b).fields b).nChainTx = s.chainTx b.path % 2 ^ 32 := by
  rw [linkBlock_nChainTx, if_pos rfl, chainTx_path]
  cases hp : b.pprev with
  | none =>
    rw [pprev_eq_none.mp hp, chainTx]
    simp
  | some p =>
    have hmem := h.closed b hb p (pprev_le hp)
    rw [pprev_eq_some.mp hp]
    simp only [Option.map_some, Option.getD_some, h.counted p hmem (hparent p hp)]
    rw [Nat.mod_add_mod, Nat.add_comm]

theorem linkBlock_haveTxs (h : DataOk queue s) (hb : b ∈ s.m_block_index)
    (hparent : ∀ p, b.pprev = some p → s.haveTxsDownloaded p = true)
    (hcount : s.chainTx b.path % 2 ^ 32 ≠ 0) (c : CBlockIndex) :
    (linkBlock s b).haveTxsDownloaded c = (decide (c = b) || s.haveTxsDownloaded c) := by
  unfold haveTxsDownloaded
  by_cases hc : c = b
  · subst hc
    rw [linkBlock_counted h hb hparent]
    simpa using hcount
  · rw [linkBlock_nChainTx, if_neg hc]
    simp [hc]

theorem DataOk.linkBlock {queue : List CBlockIndex} (h : DataOk (b :: queue) s)
    (hb : b ∈ s.m_block_index) (hdata : (s.status b).haveData = true)
    (hparent : ∀ p, b.pprev = some p → s.haveTxsDownloaded p = true)
    (hcount : s.chainTx b.path % 2 ^ 32 ≠ 0) :
    DataOk (queue ++ (s.m_blocks_unlinked.filter fun w => w.1 = b).map Prod.snd)
      (linkBlock s b) := by
  have htxs := linkBlock_haveTxs h hb hparent hcount
  have hstatus := linkBlock_status s b
  have hmono : ∀ c, s.haveTxsDownloaded c = true →
      (NodeEnv.linkBlock s b).haveTxsDownloaded c = true := by
    intro c hc
    rw [htxs, hc, Bool.or_true]
  refine ⟨h.closed, ?_, ?_, ?_, ?_, ?_⟩
  · intro c hc hlinked
    rw [htxs, Bool.or_eq_true, decide_eq_true_eq] at hlinked
    rw [hstatus]
    rcases hlinked with rfl | hlinked
    · exact ⟨hdata, fun p hp => hmono p (hparent p hp)⟩
    · exact ⟨(h.linked c hc hlinked).1, fun p hp => hmono p ((h.linked c hc hlinked).2 p hp)⟩
  · intro c hc
    rw [Checked, hstatus]
    exact h.checked c hc
  · intro c hc hlinked
    rw [chainTx_congr (linkBlock_nTx s b)]
    by_cases hcb : c = b
    · rw [hcb]
      exact linkBlock_counted h hb hparent
    · rw [htxs, decide_eq_false hcb, Bool.false_or] at hlinked
      rw [linkBlock_nChainTx, if_neg hcb]
      exact h.counted c hc hlinked
  · intro c hc hc' hnot
    rw [htxs, Bool.or_eq_false_iff, decide_eq_false_iff_not] at hnot
    rw [hstatus] at hc'
    rcases h.waiting c hc hc' hnot.2 with hqueue | ⟨p, hp, hpnot, hwaits⟩
    · rcases mem_cons.mp hqueue with heq | hqueue
      · exact absurd heq hnot.1
      · exact Or.inl (mem_append_left _ hqueue)
    · by_cases hpb : p = b
      · left
        apply mem_append_right
        exact mem_map.mpr ⟨(p, c), mem_filter.mpr ⟨hwaits, by simpa using hpb⟩, rfl⟩
      · right
        refine ⟨p, hp, ?_, mem_filter.mpr ⟨hwaits, by simpa using hpb⟩⟩
        rw [htxs, hpnot, decide_eq_false hpb, Bool.false_or]
  · intro w hw
    rw [hstatus]
    exact h.unlinked w (mem_of_mem_filter hw)

/-! ### The queue -/

/-- All data is there from `new` up to it, and its parent is linked. -/
structure Queued (s : ChainState) (new q : CBlockIndex) : Prop where
  index : q ∈ s.m_block_index
  above : new ≤ q
  data : ∀ y, new ≤ y → y ≤ q → (s.status y).haveData = true
  parent : ∀ p, q.pprev = some p → s.haveTxsDownloaded p = true

/-- Not marked, and with a known number of transactions. -/
def Linkable (s : ChainState) (new : CBlockIndex) : Prop :=
  ∀ x ∈ s.m_block_index, new ≤ x → (∀ y, new ≤ y → y ≤ x → (s.status y).haveData = true) →
    s.failed x = false ∧ s.chainTx x.path % 2 ^ 32 ≠ 0

theorem Linkable.linkBlock {new : CBlockIndex} (h : s.Linkable new) (b : CBlockIndex) :
    (linkBlock s b).Linkable new := by
  intro x hx hle hdata
  rw [chainTx_congr (linkBlock_nTx s b)]
  unfold failed
  rw [linkBlock_status]
  simp only [linkBlock_status] at hdata
  exact h x hx hle hdata

theorem Queued.linkBlock {q : CBlockIndex}
    (h : DataOk (b :: queue) s) (hlinkable : s.Linkable new) (hb : Queued s new b)
    (hq : q ∈ queue ++ (s.m_blocks_unlinked.filter fun w => w.1 = b).map Prod.snd)
    (hqueue : ∀ q ∈ queue, Queued s new q) : Queued (NodeEnv.linkBlock s b) new q := by
  have htxs := linkBlock_haveTxs h hb.index hb.parent (hlinkable b hb.index hb.above hb.data).2
  rcases mem_append.mp hq with hq | hq
  · obtain ⟨hindex, habove, hdata, hparent⟩ := hqueue q hq
    refine ⟨hindex, habove, ?_, ?_⟩
    · simp only [linkBlock_status]
      exact hdata
    · intro p hp
      rw [htxs, hparent p hp, Bool.or_true]
  · -- a block that waited for the one that is linked
    obtain ⟨w, hw, rfl⟩ := mem_map.mp hq
    obtain ⟨hwaits, hwb⟩ := mem_filter.mp hw
    have hwb : w.1 = b := by simpa using hwb
    obtain ⟨hp, hindex, hdata⟩ := h.unlinked w hwaits
    rw [hwb] at hp
    refine ⟨hindex, hb.above.trans (pprev_le hp), ?_, ?_⟩
    · intro y hy hyw
      rw [linkBlock_status]
      rcases (le_iff_eq_or_le_pprev hp).mp hyw with rfl | hyb
      · exact hdata
      · exact hb.data y hy hyb
    · intro p hp'
      rw [hp] at hp'
      cases hp'
      rw [htxs, decide_eq_true rfl, Bool.true_or]

/-- It ends with an empty queue and what every turn keeps. -/
theorem linkBlocks_rule (P : ChainState → Prop)
    (step : ∀ s b queue, DataOk (b :: queue) s → Queued s new b → s.failed b = false →
      s.chainTx b.path % 2 ^ 32 ≠ 0 → P s → P (linkBlock s b))
    (turns : Nat) (queue : List CBlockIndex) (s : ChainState)
    (hturns : queue.length + s.m_blocks_unlinked.length ≤ turns) (h : DataOk queue s)
    (hlinkable : s.Linkable new) (hqueue : ∀ q ∈ queue, Queued s new q) (hP : P s) :
    DataOk [] (linkBlocks turns queue s) ∧ P (linkBlocks turns queue s) := by
  induction turns generalizing queue s with
  | zero =>
    have hnil : queue = [] := length_eq_zero_iff.mp (by omega)
    subst hnil
    exact ⟨h, hP⟩
  | succ turns ih =>
    cases queue with
    | nil => exact ⟨h, hP⟩
    | cons b queue =>
      have hb := hqueue b mem_cons_self
      obtain ⟨hfailed, hcount⟩ := hlinkable b hb.index hb.above hb.data
      apply ih
      · -- a turn takes one block from the queue; those that waited for it move there
        have hsplit := length_eq_length_filter_add
          (l := s.m_blocks_unlinked) fun w => decide (w.1 = b)
        have hrest : (linkBlock s b).m_blocks_unlinked.length =
            (s.m_blocks_unlinked.filter fun w => !decide (w.1 = b)).length := by
          simp [NodeEnv.linkBlock]
        rw [length_append, length_map, hrest]
        rw [length_cons] at hturns
        omega
      · exact h.linkBlock hb.index (hb.data b hb.above (le_refl b)) hb.parent hcount
      · exact hlinkable.linkBlock b
      · intro q hq
        exact Queued.linkBlock h hlinkable hb hq (forall_mem_cons.mp hqueue).2
      · exact step s b queue h hb hfailed hcount hP

/-! ### The data of a block is recorded -/

variable (E : NodeEnv) (block : CBlock)

theorem recordData_of_ne (hc : c ≠ b) : (E.recordData s block b).fields c = s.fields c := by
  unfold recordData
  rw [modify_fields, if_neg hc]

theorem recordData_status_self (hfailed : s.failed b = false) :
    ((E.recordData s block b).status b).haveData = true ∧
      ((E.recordData s block b).status b).failed = false ∧
      (E.recordData s block b).Checked b := by
  unfold Checked status recordData
  rw [modify_fields, if_pos rfl]
  exact ⟨BlockStatus.haveData_raiseValidity _ _,
    (BlockStatus.failed_raiseValidity _ _).trans hfailed, BlockStatus.le_level_raiseValidity hfailed⟩

theorem recordData_failed (hfailed : s.failed b = false) (c : CBlockIndex) :
    (E.recordData s block b).failed c = s.failed c := by
  by_cases hc : c = b
  · rw [hc, hfailed]
    exact (recordData_status_self E block hfailed).2.1
  · unfold failed status
    rw [recordData_of_ne E block hc]

theorem recordData_haveTxs (hnot : s.haveTxsDownloaded b = false) (c : CBlockIndex) :
    (E.recordData s block b).haveTxsDownloaded c = s.haveTxsDownloaded c := by
  by_cases hc : c = b
  · rw [hc, hnot]
    unfold haveTxsDownloaded recordData
    rw [modify_fields, if_pos rfl]
    rfl
  · unfold haveTxsDownloaded
    rw [recordData_of_ne E block hc]

theorem DataOk.recordData (h : DataOk [] s) (hfailed : s.failed b = false)
    (hnot : s.haveTxsDownloaded b = false) : DataOk [b] (E.recordData s block b) := by
  have htxs := recordData_haveTxs E block hnot
  obtain ⟨hself, -, hchecked⟩ := recordData_status_self E block hfailed
  have hother : ∀ c, c ≠ b → (E.recordData s block b).fields c = s.fields c :=
    fun c hc => recordData_of_ne E block hc
  have hstatus : ∀ c, c ≠ b → (E.recordData s block b).status c = s.status c := by
    intro c hc
    unfold status
    rw [hother c hc]
  have hne : ∀ c, s.haveTxsDownloaded c = true → c ≠ b := by
    rintro c hc rfl
    rw [hnot] at hc
    cases hc
  refine ⟨h.closed, ?_, ?_, ?_, ?_, ?_⟩
  · intro c hc hlinked
    rw [htxs] at hlinked
    simp only [htxs, hstatus c (hne c hlinked)]
    exact h.linked c hc hlinked
  · intro c hc
    by_cases hcb : c = b
    · rw [hcb]
      exact iff_of_true hself hchecked
    · rw [Checked, hstatus c hcb]
      exact h.checked c hc
  · -- the ancestors of a linked block are linked, so that the new block is none of them
    intro c hc hlinked
    rw [htxs] at hlinked
    rw [hother c (hne c hlinked), chainTx_congr_path c.path]
    · exact h.counted c hc hlinked
    · intro a ha
      rw [hother a (hne a (h.below hc hlinked ha).1)]
  · intro c hc hdata hwaits
    by_cases hcb : c = b
    · exact Or.inl (mem_singleton.mpr hcb)
    · rw [hstatus c hcb] at hdata
      rw [htxs] at hwaits
      simp only [htxs]
      exact Or.inr ((h.waiting c hc hdata hwaits).resolve_left not_mem_nil)
  · intro w hw
    obtain ⟨hp, hindex, hdata⟩ := h.unlinked w hw
    refine ⟨hp, hindex, ?_⟩
    by_cases hwb : w.2 = b
    · rw [hwb]
      exact hself
    · rw [hstatus w.2 hwb]
      exact hdata

theorem DataOk.wait (h : DataOk [b] s) (hb : b ∈ s.m_block_index) (hp : b.pprev = some p)
    (hdata : (s.status b).haveData = true) (hparent : s.haveTxsDownloaded p = false) :
    DataOk [] { s with m_blocks_unlinked := s.m_blocks_unlinked ++ [(p, b)] } where
  closed := h.closed
  linked := h.linked
  checked := h.checked
  counted c hc hlinked := by
    refine (h.counted c hc hlinked).trans ?_
    congr 1
    apply chainTx_congr
    intro _
    rfl
  waiting c hc hc' hnot := by
    right
    rcases h.waiting c hc hc' hnot with hqueue | ⟨q, hq, hqnot, hmem⟩
    · rw [mem_singleton] at hqueue
      subst hqueue
      exact ⟨p, hp, hparent, mem_append_right _ mem_cons_self⟩
    · exact ⟨q, hq, hqnot, mem_append_left _ hmem⟩
  unlinked w hw := by
    rcases mem_append.mp hw with hw | hw
    · exact h.unlinked w hw
    · rw [mem_singleton] at hw
      subst hw
      exact ⟨hp, hb, hdata⟩

end ChainState

end VBitcoin
