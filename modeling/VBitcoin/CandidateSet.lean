import VBitcoin.CandidateData
import VBitcoin.InvalidateBlock

/-!
**Is a valid chain ever forgotten?** — from every block with its data that is not marked, a
path of unmarked blocks leads to a member of `setBlockIndexCandidates` (`Covered`).  Every
operation keeps this under conditions that the code does not check (`CandidateStep.Safe`):
waiting blocks become candidates even when marked, none waits for a marked parent, and
`ResetBlockFailureFlags` does not put ancestors back.
-/

namespace VBitcoin

open CBlockIndex

namespace ChainState

/-! ### The invariant -/

/-- Not marked as failed, and with the data of all ancestors. -/
def Live (s : ChainState) (b : CBlockIndex) : Prop :=
  s.failed b = false ∧ s.haveTxsDownloaded b = true

/-- A candidate that is reached from a block without meeting a marked one. -/
def CoveredBy (s : ChainState) (b c : CBlockIndex) : Prop :=
  c ∈ s.setBlockIndexCandidates ∧ b ≤ c ∧ ∀ x, b ≤ x → x ≤ c → s.failed x = false

structure Covered (s : ChainState) : Prop where
  members : ∀ c ∈ s.setBlockIndexCandidates, c ∈ s.m_block_index ∧ s.Live c
  cover : ∀ b ∈ s.m_block_index, s.Live b → ∃ c, s.CoveredBy b c
  active : ∃ t, s.tip = some t ∧ t ∈ s.m_block_index ∧ s.haveTxsDownloaded t = true ∧
    ∀ c ≤ t, s.failed c = false

variable {s s' : ChainState} {b c t p : CBlockIndex} {queue : List CBlockIndex}

theorem DataOk.isCandidate_iff (h : DataOk queue s) (hb : b ∈ s.m_block_index) :
    s.isCandidate b = true ↔ s.Live b := by
  unfold isCandidate Live
  rw [Bool.and_eq_true]
  constructor
  · rintro ⟨hvalid, htxs⟩
    exact ⟨(BlockStatus.isValid_iff.mp hvalid).1, htxs⟩
  · rintro ⟨hfailed, htxs⟩
    exact ⟨BlockStatus.isValid_iff.mpr
      ⟨hfailed, (h.checked b hb).mp (h.linked b hb htxs).1⟩, htxs⟩

theorem Live.coveredBy_self (hlive : s.Live b) (hb : b ∈ s.setBlockIndexCandidates) :
    s.CoveredBy b b := by
  refine ⟨hb, le_refl b, ?_⟩
  intro x hle hge
  rw [le_antisymm hge hle]
  exact hlive.1

theorem Covered.candidates_ne_nil (h : s.Covered) : s.setBlockIndexCandidates ≠ [] := by
  obtain ⟨t, -, ht, htxs, hclean⟩ := h.active
  obtain ⟨c, hc, -, -⟩ := h.cover t ht ⟨hclean t (le_refl t), htxs⟩
  exact List.ne_nil_of_mem hc

theorem Covered.grow (h : s.Covered) (hindex : s'.m_block_index = s.m_block_index)
    (htip : s'.tip = s.tip) (hfailed : ∀ c, s'.failed c = s.failed c)
    (htxs : ∀ c, s'.haveTxsDownloaded c = s.haveTxsDownloaded c)
    (hsubset : s.setBlockIndexCandidates ⊆ s'.setBlockIndexCandidates)
    (hmembers : ∀ c ∈ s'.setBlockIndexCandidates, c ∈ s.m_block_index ∧ s.Live c) : s'.Covered := by
  refine ⟨?_, ?_, ?_⟩
  · intro c hc
    unfold Live
    rw [hindex, hfailed, htxs]
    exact hmembers c hc
  · intro b hb hlive
    unfold Live at hlive
    rw [hindex] at hb
    rw [hfailed, htxs] at hlive
    obtain ⟨c, hc, hle, hpath⟩ := h.cover b hb hlive
    refine ⟨c, hsubset hc, hle, ?_⟩
    intro x hbx hxc
    rw [hfailed]
    exact hpath x hbx hxc
  · simp only [htip, hindex, hfailed, htxs]
    exact h.active

theorem Covered.sameIndex (h : s.Covered) (hsame : SameIndex s s')
    (hsubset : s.setBlockIndexCandidates ⊆ s'.setBlockIndexCandidates)
    (hmembers : ∀ c ∈ s'.setBlockIndexCandidates, c ∈ s.m_block_index ∧ s.Live c) : s'.Covered := by
  refine h.grow hsame.index hsame.tip ?_ (congrFun hsame.haveTxsDownloaded) hsubset hmembers
  intro c
  unfold failed
  rw [hsame.status]

/-! ### Pruning -/

theorem Covered.prune (h : s.Covered) :
    ({ s with setBlockIndexCandidates := s.keptCandidates } : ChainState).Covered where
  members c hc := h.members c (mem_keptCandidates.mp hc).1
  active := h.active
  cover b hb hlive := by
    classical
    obtain ⟨c₀, hc₀⟩ := h.cover b hb hlive
    obtain ⟨top, htop, hmax⟩ := (s.setBlockIndexCandidates.toFinset.filter
      (s.CoveredBy b)).exists_max_image CBlockIndex.nHeight
      ⟨c₀, Finset.mem_filter.mpr ⟨List.mem_toFinset.mpr hc₀.1, hc₀⟩⟩
    obtain ⟨hmem, hle, hpath⟩ := (Finset.mem_filter.mp htop).2
    refine ⟨top, mem_keptCandidates.mpr ⟨hmem, ?_⟩, hle, hpath⟩
    -- a candidate on top of it would cover the block as well
    intro el hel hparent
    have hcovers : s.CoveredBy b el := by
      refine ⟨hel, hle.trans (pprev_le hparent), ?_⟩
      intro x hbx hxel
      rcases (le_iff_eq_or_le_pprev hparent).mp hxel with rfl | hxtop
      · exact (h.members x hel).2.1
      · exact hpath x hbx hxtop
    have hheight := hmax el (Finset.mem_filter.mpr ⟨List.mem_toFinset.mpr hel, hcovers⟩)
    rw [nHeight_pprev hparent] at hheight
    omega

theorem Covered.prune_eq (h : s.Covered) : s.pruneBlockIndexCandidates =
    .ok { s with setBlockIndexCandidates := s.keptCandidates } :=
  prune_of_ne_nil h.candidates_ne_nil

/-! ### Marking blocks -/

/-- A block that was covered across `F` needs another candidate. -/
theorem Covered.flag {F : CBlockIndex → Prop} (h : s.Covered) (hsame : SameData s s')
    (hfailed : ∀ c, s'.failed c = false ↔ s.failed c = false ∧ ¬ F c)
    (hkeep : ∀ c ∈ s.setBlockIndexCandidates, ¬ F c → c ∈ s'.setBlockIndexCandidates)
    (hmembers : ∀ c ∈ s'.setBlockIndexCandidates, c ∈ s.m_block_index ∧ s'.Live c)
    (hactive : ∃ t, s'.tip = some t ∧ t ∈ s.m_block_index ∧ s.haveTxsDownloaded t = true ∧
      ∀ c ≤ t, s.failed c = false ∧ ¬ F c)
    (hacross : ∀ b ∈ s.m_block_index, s'.Live b → ∀ z, b ≤ z → F z →
      (∀ x, b ≤ x → x ≤ z → s.failed x = false) → ∃ c, s'.CoveredBy b c) : s'.Covered := by
  refine ⟨?_, ?_, ?_⟩
  · rw [hsame.index]
    exact hmembers
  · intro b hb hlive
    rw [hsame.index] at hb
    have hlive' : s.Live b := ⟨((hfailed b).mp hlive.1).1, (hsame.haveTxs b).symm.trans hlive.2⟩
    obtain ⟨c, hc, hle, hpath⟩ := h.cover b hb hlive'
    by_cases hF : ∃ z, b ≤ z ∧ z ≤ c ∧ F z
    · obtain ⟨z, hbz, hzc, hz⟩ := hF
      exact hacross b hb hlive z hbz hz fun x hbx hxz => hpath x hbx (hxz.trans hzc)
    · refine ⟨c, hkeep c hc fun hFc => hF ⟨c, hle, le_refl c, hFc⟩, hle, ?_⟩
      intro x hbx hxc
      exact (hfailed x).mpr ⟨hpath x hbx hxc, fun hFx => hF ⟨x, hbx, hxc, hFx⟩⟩
  · obtain ⟨t, htip, ht, htxs, hclean⟩ := hactive
    refine ⟨t, htip, ?_, ?_, fun c hc => (hfailed c).mpr (hclean c hc)⟩
    · rw [hsame.index]
      exact ht
    · rw [hsame.haveTxs]
      exact htxs

theorem coveredBy_of_active (ht : t ∈ s.setBlockIndexCandidates) (hle : b ≤ t)
    (hclean : ∀ c ≤ t, s.failed c = false) : s.CoveredBy b t :=
  ⟨ht, hle, fun x _ hxt => hclean x hxt⟩

theorem sameData_recordFailed : SameData s (s.recordFailed b) := by
  have h : SameData s (s.modifyStatus b fun status => { status with failedValid := true }) :=
    sameData_modifyStatus (fun _ => rfl) Iff.rfl
  exact ⟨h.index, h.unlinked, h.nTx, h.nChainTx, h.haveData, h.checked⟩

theorem sameData_invalidBlockFound (result : BlockValidationResult) :
    SameData s (s.invalidBlockFound b result) := by
  by_cases hresult : result = .BLOCK_MUTATED
  · rw [invalidBlockFound, if_pos hresult]
    exact SameData.refl s
  · exact sameData_recordFailed.trans (invalidBlockFound_spec hresult).sameData

theorem recordFailed_failed :
    (s.recordFailed b).failed c = false ↔ s.failed c = false ∧ ¬ c = b := by
  unfold failed
  rw [recordFailed_status]
  split
  · next h => simp [BlockStatus.failed, h]
  · next h => simp [h]

/-! ### `InvalidBlockFound` -/

theorem mem_invalidBlockFound {result : BlockValidationResult} (hresult : result ≠ .BLOCK_MUTATED)
    (hp : b.pprev = some p) :
    c ∈ (s.invalidBlockFound b result).setBlockIndexCandidates ↔
      c = p ∨ (c ∈ s.setBlockIndexCandidates ∧ c ≠ b) := by
  unfold invalidBlockFound
  rw [if_neg hresult]
  simp only [invalidChainFound_candidates, hp, mem_insertCandidate, mem_eraseCandidate]
  rfl

theorem Covered.invalidBlockFound (h : s.Covered) (hparent : b.pprev = s.tip)
    (result : BlockValidationResult) : (s.invalidBlockFound b result).Covered := by
  by_cases hresult : result = .BLOCK_MUTATED
  · rw [ChainState.invalidBlockFound, if_pos hresult]
    exact h
  · obtain ⟨t, htip, ht, htxs, hclean⟩ := h.active
    rw [htip] at hparent
    have hsame := invalidBlockFound_spec (s := s) (b := b) hresult
    have hdata := sameData_invalidBlockFound (s := s) (b := b) result
    have hfailed : ∀ c, (s.invalidBlockFound b result).failed c = false ↔
        s.failed c = false ∧ ¬ c = b := by
      intro c
      unfold failed
      rw [hsame.status]
      exact recordFailed_failed
    have hbelow : ∀ c ≤ t, c ≠ b := by
      rintro c hc rfl
      exact (pprev_lt hparent).not_ge hc
    apply h.flag hdata hfailed
    · intro c hc hne
      exact (mem_invalidBlockFound hresult hparent).mpr (Or.inr ⟨hc, hne⟩)
    · intro c hc
      unfold Live
      rw [hfailed, hdata.haveTxs]
      rcases (mem_invalidBlockFound hresult hparent).mp hc with rfl | ⟨hc, hne⟩
      · exact ⟨ht, ⟨hclean c (le_refl c), hbelow c (le_refl c)⟩, htxs⟩
      · obtain ⟨hindex, hlive⟩ := h.members c hc
        exact ⟨hindex, ⟨hlive.1, hne⟩, hlive.2⟩
    · exact ⟨t, hsame.tip.trans htip, ht, htxs, fun c hc => ⟨hclean c hc, hbelow c hc⟩⟩
    · -- a block below the failed one is covered by the tip
      rintro y hy hlive z hyz rfl -
      have hne : y ≠ z := ((hfailed y).mp hlive.1).2
      refine ⟨t, coveredBy_of_active ((mem_invalidBlockFound hresult hparent).mpr (Or.inl rfl))
        (le_pprev_of_lt (lt_of_le_of_ne hyz hne) hparent) ?_⟩
      intro c hc
      exact (hfailed c).mpr ⟨hclean c hc, hbelow c hc⟩

/-! ### `InvalidateBlock` -/

variable {host : ChainHost} {l : InvalidateLoop}

theorem Covered.markDisconnected (h : s.Covered) (htip : s.tip = some t) (hp : t.pprev = some p)
    (hdata : DataOk [] s) :
    (s.markDisconnected t p).Covered ∧ SameData s (s.markDisconnected t p) ∧
      (∀ c, (s.markDisconnected t p).failed c = false ↔ s.failed c = false ∧ ¬ c = t) := by
  obtain ⟨t', htip', ht, htxs, hclean⟩ := h.active
  rw [htip] at htip'
  cases htip'
  have hmark : SameData s (s.markDisconnected t p) := by
    have h : SameData s (s.modifyStatus t fun status => { status with failedValid := true }) :=
      sameData_modifyStatus (fun _ => rfl) Iff.rfl
    exact ⟨h.index, h.unlinked, h.nTx, h.nChainTx, h.haveData, h.checked⟩
  have hfailed : ∀ c, (s.markDisconnected t p).failed c = false ↔ s.failed c = false ∧ ¬ c = t :=
    fun c => recordFailed_failed
  have hmem : ∀ c, c ∈ (s.markDisconnected t p).setBlockIndexCandidates ↔
      c = p ∨ (c ∈ s.setBlockIndexCandidates ∧ c ≠ t) := by
    intro c
    unfold ChainState.markDisconnected
    simp only [mem_insertCandidate, mem_eraseCandidate]
    rfl
  have hpt := pprev_lt hp
  have hbelow : ∀ c ≤ p, s.failed c = false ∧ ¬ c = t := by
    intro c hc
    refine ⟨hclean c (hc.trans hpt.le), ?_⟩
    rintro rfl
    exact hpt.not_ge hc
  have hpmem : p ∈ s.m_block_index ∧ s.haveTxsDownloaded p = true :=
    ⟨hdata.closed t ht p hpt.le, (hdata.below ht htxs hpt.le).1⟩
  refine ⟨?_, hmark, hfailed⟩
  apply h.flag hmark hfailed
  · intro c hc hne
    exact (hmem c).mpr (Or.inr ⟨hc, hne⟩)
  · intro c hc
    unfold Live
    rw [hfailed, hmark.haveTxs]
    rcases (hmem c).mp hc with rfl | ⟨hc, hne⟩
    · exact ⟨hpmem.1, hbelow c (le_refl c), hpmem.2⟩
    · obtain ⟨hindex, hlive⟩ := h.members c hc
      exact ⟨hindex, ⟨hlive.1, hne⟩, hlive.2⟩
  · exact ⟨p, rfl, hpmem.1, hpmem.2, hbelow⟩
  · rintro y hy hlive z hyz rfl -
    have hne : y ≠ z := ((hfailed y).mp hlive.1).2
    refine ⟨p, coveredBy_of_active ((hmem p).mpr (Or.inl rfl))
      (le_pprev_of_lt (lt_of_le_of_ne hyz hne) hp) ?_⟩
    intro c hc
    exact (hfailed c).mpr (hbelow c hc)

/-- Better candidates are off the old chain, and so never marked. -/
structure LoopOk (t₀ t : CBlockIndex) (l : InvalidateLoop) : Prop where
  data : DataOk [] l.state
  covered : l.state.Covered
  tip : l.state.tip = some t
  le : t ≤ t₀
  better : ∀ c ∈ l.candidate_blocks_by_work, c ∈ l.state.m_block_index ∧ l.state.Live c ∧ ¬ c ≤ t₀

theorem LoopOk.mark {t₀ : CBlockIndex} (h : LoopOk t₀ t l) (hp : t.pprev = some p) :
    LoopOk t₀ p (l.mark host t p) := by
  obtain ⟨hcovered, hsame, hfailed⟩ := h.covered.markDisconnected h.tip hp h.data
  have hpt := pprev_lt hp
  -- the parent is on the active chain, and so it is not marked
  have hchild : (l.state.markDisconnected t p).markChild p l.to_mark_failed =
      l.state.markDisconnected t p := by
    unfold markChild
    apply if_neg
    intro hmarked
    simp only [Bool.and_eq_true, decide_eq_true_eq] at hmarked
    obtain ⟨rfl, hmarked⟩ := hmarked
    obtain ⟨t', htip', -, -, hclean⟩ := hcovered.active
    have htip'' : t' = l.to_mark_failed := (Option.some.inj htip').symm
    have := BlockStatus.failedValid_of_not_failed (hclean l.to_mark_failed htip''.ge)
    rw [this] at hmarked
    cases hmarked
  have hlive : ∀ c ∈ l.candidate_blocks_by_work,
      c ∈ l.state.m_block_index ∧ (l.state.markDisconnected t p).Live c := by
    intro c hc
    obtain ⟨hindex, hlive, hoff⟩ := h.better c hc
    refine ⟨hindex, (hfailed c).mpr ⟨hlive.1, ?_⟩, (hsame.haveTxs c).trans hlive.2⟩
    rintro rfl
    exact hoff h.le
  have htip : (l.state.markDisconnected t p).tip = some p := rfl
  unfold InvalidateLoop.mark
  rw [hchild]
  generalize l.state.markDisconnected t p = s₁ at *
  have hgrown := sameIndex_foldl_insertCandidate s₁
  refine ⟨?_, ?_, ?_, hpt.le.trans h.le, ?_⟩
  · exact h.data.sameData (hsame.trans (hgrown _).sameData)
  · apply hcovered.sameIndex (hgrown _)
    · intro c hc
      exact (mem_foldl_insertCandidate _ _ _).mpr (Or.inr hc)
    · intro c hc
      rcases (mem_foldl_insertCandidate _ _ _).mp hc with hc | hc
      · have := hlive c (List.mem_of_mem_filter hc)
        rw [← hsame.index] at this
        exact this
      · exact hcovered.members c hc
  · exact (hgrown _).tip.trans htip
  · intro c hc
    have hc := List.mem_of_mem_filter hc
    obtain ⟨hindex, hlive⟩ := hlive c hc
    refine ⟨?_, ?_, (h.better c hc).2.2⟩
    · rw [(hgrown _).index, hsame.index]
      exact hindex
    · unfold Live failed at hlive ⊢
      rw [(hgrown _).status, (hgrown _).haveTxsDownloaded]
      exact hlive

theorem Covered.markFailed (h : s.Covered) (hdata : DataOk [] s) (b : CBlockIndex) :
    ∃ completed s', s.markFailed b = .ok (completed, s') ∧ s'.Covered ∧ SameData s s' := by
  by_cases hon : chainContains s.tip b = true
  · unfold ChainState.markFailed
    rw [if_pos hon]
    exact ⟨_, _, rfl, h, SameData.refl s⟩
  · rw [Bool.not_eq_true] at hon
    obtain ⟨s₁, hsame, hmem, heq⟩ := markFailed_off hon
    have hdata₁ : SameData s s₁ := sameData_recordFailed.trans hsame.sameData
    have hfailed : ∀ c, s₁.failed c = false ↔ s.failed c = false ∧ ¬ c = b := by
      intro c
      unfold failed
      rw [hsame.status]
      exact recordFailed_failed
    have hlive : ∀ c, s₁.Live c ↔ (s.recordFailed b).Live c := by
      intro c
      unfold Live failed
      rw [hsame.status, hsame.haveTxsDownloaded]
    have hcandidate : ∀ c ∈ s.m_block_index,
        ((s.recordFailed b).isCandidate c = true ↔ s₁.Live c) := by
      intro c hc
      rw [hlive]
      exact (hdata.sameData sameData_recordFailed).isCandidate_iff hc
    have hcovered : s₁.Covered := by
      apply h.flag hdata₁ hfailed
      · intro c hc hne
        exact (hmem c).mpr (Or.inl ⟨hc, hne⟩)
      · intro c hc
        rcases (hmem c).mp hc with ⟨hc, hne⟩ | ⟨hc, hcand⟩
        · obtain ⟨hindex, hlive⟩ := h.members c hc
          exact ⟨hindex, (hfailed c).mpr ⟨hlive.1, hne⟩, (hdata₁.haveTxs c).trans hlive.2⟩
        · exact ⟨hc, (hcandidate c hc).mp hcand⟩
      · obtain ⟨t, htip, ht, htxs, hclean⟩ := h.active
        refine ⟨t, hsame.tip.trans htip, ht, htxs, fun c hc => ⟨hclean c hc, ?_⟩⟩
        rintro rfl
        rw [htip, chainContains_some.mpr hc] at hon
        cases hon
      · intro y hy hlive z _ _ _
        exact ⟨y, hlive.coveredBy_self ((hmem y).mpr (Or.inr ⟨hy, (hcandidate y hy).mpr hlive⟩))⟩
    rw [heq, hcovered.prune_eq]
    exact ⟨_, _, rfl, hcovered.prune, hdata₁.trans (sameIndex_prune hcovered.prune_eq).sameData⟩

theorem Covered.invalidateBlock (h : s.Covered) (hdata : DataOk [] s) (hp : b.pprev = some p)
    (host : ChainHost) : ∃ completed s', s.invalidateBlock host b = .ok (completed, s') ∧
      DataOk [] s' ∧ s'.Covered := by
  obtain ⟨t₀, htip, -⟩ := h.active
  unfold ChainState.invalidateBlock
  simp only [hp, htip, Option.map_some, Option.getD_some]
  have hstart : LoopOk t₀ t₀ ⟨s, b, s.candidateBlocksByWork host p⟩ := by
    refine ⟨hdata, h, htip, le_refl t₀, ?_⟩
    intro c hc
    obtain ⟨hindex, hcand⟩ := List.mem_filter.mp hc
    simp only [Bool.and_eq_true, Bool.not_eq_true'] at hcand
    obtain ⟨⟨hoff, -⟩, hcand⟩ := hcand
    refine ⟨hindex, (hdata.isCandidate_iff hindex).mp hcand, ?_⟩
    intro hle
    rw [htip, chainContains_some.mpr hle] at hoff
    cases hoff
  obtain ⟨t, hloop, -⟩ := invalidateLoop_rule host b (fun t l => LoopOk t₀ t l)
    (fun t q l hq _ _ hl => hl.mark hq) (by simp [hp]) t₀ 0 _ hstart
  generalize invalidateLoop host b t₀.path 0 ⟨s, b, s.candidateBlocksByWork host p⟩ =
    result at *
  obtain ⟨ended, l⟩ := result
  cases ended with
  | false => exact ⟨_, _, rfl, hloop.data, hloop.covered⟩
  | true =>
    obtain ⟨completed, s', hrun, hcovered, hsame⟩ :=
      hloop.covered.markFailed hloop.data l.to_mark_failed
    exact ⟨completed, s', hrun, hloop.data.sameData hsame, hcovered⟩

/-! ### `TestBlockIndex` -/

/-- Nothing, or a removal down to a marked block off the active chain. -/
theorem testWalk_cases {b x : CBlockIndex} {usable : Bool} (hdata : DataOk [] s)
    (hx : x ∈ s.m_block_index) (htxs : s.haveTxsDownloaded x = true)
    (hrun : testWalk b s x.path = .ok (usable, s')) :
    s' = s ∨ ∃ w ≤ x, s.failed w = true ∧
      (∀ y, w ≤ y → y ≤ x → chainContains s.tip y = false) ∧
      s' = (removeChain w true b.path (s.invalidChainFound b)).eraseCandidate w := by
  induction x using induction_pprev with
  | step x ih =>
    obtain ⟨entry, rest⟩ := x
    have hhave := (hdata.linked _ hx htxs).1
    simp only [CBlockIndex.path, testWalk] at hrun
    split at hrun
    · cases hrun
      exact Or.inl rfl
    · next hoff =>
      rw [Bool.not_eq_true] at hoff
      simp only [htxs, Bool.true_or, require_true, ok_bind, hhave, Bool.not_true, Bool.or_false] at hrun
      cases hfailed : s.failed ⟨entry, rest⟩ with
      | true =>
        rw [hfailed] at hrun
        cases hrun
        refine Or.inr ⟨⟨entry, rest⟩, le_refl _, hfailed, ?_, rfl⟩
        intro y hy hy'
        rw [le_antisymm hy' hy]
        exact hoff
      | false =>
        rw [hfailed, if_neg (by simp)] at hrun
        cases rest with
        | nil =>
          cases hrun
          exact Or.inl rfl
        | cons parent rest =>
          have hp : (⟨entry, parent :: rest⟩ : CBlockIndex).pprev = some ⟨parent, rest⟩ := rfl
          rcases ih ⟨parent, rest⟩ hp (hdata.closed _ hx _ (pprev_le hp))
            ((hdata.linked _ hx htxs).2 _ hp) hrun with rfl | ⟨w, hw, hwf, hwoff, heq⟩
          · exact Or.inl rfl
          · refine Or.inr ⟨w, hw.trans (pprev_le hp), hwf, ?_, heq⟩
            intro y hwy hy
            rcases (le_iff_eq_or_le_pprev hp).mp hy with rfl | hy
            · exact hoff
            · exact hwoff y hwy hy

theorem removeChain_spec {w b : CBlockIndex} (hle : w ≤ b) (s : ChainState) :
    SameData s (removeChain w true b.path s) ∧
      (removeChain w true b.path s).tip = s.tip ∧
      (∀ c, (removeChain w true b.path s).failed c = false ↔
        s.failed c = false ∧ ¬ (w < c ∧ c ≤ b)) ∧
      ∀ c, c ∈ (removeChain w true b.path s).setBlockIndexCandidates ↔
        c ∈ s.setBlockIndexCandidates ∧ ¬ (w < c ∧ c ≤ b) := by
  induction b using induction_pprev generalizing s with
  | step b ih =>
    obtain ⟨entry, rest⟩ := b
    unfold CBlockIndex.path removeChain
    dsimp only
    split
    · next heq =>
      subst heq
      refine ⟨SameData.refl s, rfl, fun c => ?_, fun c => ?_⟩
      · simp only [iff_self_and]
        rintro - ⟨hlt, hle⟩
        exact hlt.not_ge hle
      · simp only [iff_self_and]
        rintro - ⟨hlt, hle⟩
        exact hlt.not_ge hle
    · next hne =>
      have hlt := lt_of_le_of_ne hle hne
      obtain ⟨p, hp⟩ := exists_pprev_of_lt hlt
      have hrest : rest = p.path := pprev_eq_some.mp hp
      subst hrest
      generalize hb : (⟨entry, p.path⟩ : CBlockIndex) = b at *
      rw [if_pos rfl]
      have hrange : ∀ c, w < c ∧ c ≤ b ↔ c = b ∨ (w < c ∧ c ≤ p) := by
        intro c
        rw [le_iff_eq_or_le_pprev hp]
        constructor
        · rintro ⟨hwc, rfl | hcp⟩
          · exact Or.inl rfl
          · exact Or.inr ⟨hwc, hcp⟩
        · rintro (rfl | ⟨hwc, hcp⟩)
          · exact ⟨hlt, Or.inl rfl⟩
          · exact ⟨hwc, Or.inr hcp⟩
      -- the block itself, and then those below it
      have hmark : SameData s (s.modifyStatus b fun status => { status with failedChild := true }) :=
        sameData_modifyStatus (fun _ => rfl) Iff.rfl
      have hfailed : ∀ c, ((s.modifyStatus b fun status =>
          { status with failedChild := true }).eraseCandidate b).failed c = false ↔
          s.failed c = false ∧ ¬ c = b := by
        intro c
        change ((s.modifyStatus b fun status =>
          { status with failedChild := true }).status c).failed = false ↔ _
        rw [modifyStatus_status]
        split
        · next h => simp [BlockStatus.failed, h]
        · next h => simp [h, failed]
      obtain ⟨hsame, htip, hfailed', hmem⟩ := ih p hp (le_pprev_of_lt hlt hp)
        ((s.modifyStatus b fun status => { status with failedChild := true }).eraseCandidate b)
      refine ⟨(hmark.trans (sameIndex_eraseCandidate _ b).sameData).trans hsame, htip, ?_, ?_⟩
      · intro c
        rw [hfailed', hfailed, hrange, not_or, and_assoc]
      · intro c
        rw [hmem, mem_eraseCandidate, hrange, not_or, and_assoc]
        rfl

theorem Covered.testBlockIndex {usable : Bool} (h : s.Covered) (hdata : DataOk [] s)
    (hb : b ∈ s.m_block_index) (htxs : s.haveTxsDownloaded b = true)
    (hrun : s.testBlockIndex b = .ok (usable, s')) : s'.Covered ∧ SameData s s' := by
  rcases testWalk_cases hdata hb htxs hrun with rfl | ⟨w, hwb, hwf, hoff, rfl⟩
  · exact ⟨h, SameData.refl _⟩
  · obtain ⟨hsame, htip, hfailed, hmem⟩ := removeChain_spec hwb (s.invalidChainFound b)
    have hinvalid := sameIndex_invalidChainFound s b
    have hdata' := (hinvalid.sameData.trans hsame).trans (sameIndex_eraseCandidate _ w).sameData
    have hfailed' : ∀ c, ((removeChain w true b.path (s.invalidChainFound b)).eraseCandidate
        w).failed c = false ↔ s.failed c = false ∧ ¬ (w < c ∧ c ≤ b) := by
      intro c
      change (removeChain w true b.path (s.invalidChainFound b)).failed c = false ↔ _
      rw [hfailed]
      unfold failed
      rw [hinvalid.status]
    have hmem' : ∀ c, c ∈ ((removeChain w true b.path (s.invalidChainFound b)).eraseCandidate
        w).setBlockIndexCandidates ↔ (c ∈ s.setBlockIndexCandidates ∧ ¬ (w < c ∧ c ≤ b)) ∧ c ≠ w := by
      intro c
      rw [mem_eraseCandidate, hmem, invalidChainFound_candidates]
    refine ⟨?_, hdata'⟩
    apply h.flag hdata' hfailed'
    · intro c hc hF
      refine (hmem' c).mpr ⟨⟨hc, hF⟩, ?_⟩
      rintro rfl
      rw [(h.members c hc).2.1] at hwf
      cases hwf
    · intro c hc
      obtain ⟨⟨hc, hF⟩, -⟩ := (hmem' c).mp hc
      obtain ⟨hindex, hlive⟩ := h.members c hc
      exact ⟨hindex, (hfailed' c).mpr ⟨hlive.1, hF⟩, (hdata'.haveTxs c).trans hlive.2⟩
    · -- what is marked is off the active chain
      obtain ⟨t, ht, htindex, httxs, hclean⟩ := h.active
      refine ⟨t, (htip.trans hinvalid.tip).trans ht, htindex, httxs, fun c hc => ⟨hclean c hc, ?_⟩⟩
      rintro ⟨hwc, hcb⟩
      have := hoff c hwc.le hcb
      rw [ht, chainContains_some.mpr hc] at this
      cases this
    · -- a path into the removed chain passes the marked block, or starts in the chain
      rintro y hy hlive z hyz ⟨hwz, hzb⟩ hpath
      exfalso
      rcases le_or_le hyz hwz.le with hyw | hwy
      · rw [hpath w hyw hwz.le] at hwf
        cases hwf
      · have hynot := ((hfailed' y).mp hlive.1)
        rcases hwy.eq_or_lt with rfl | hlt
        · rw [hynot.1] at hwf
          cases hwf
        · exact hynot.2 ⟨hlt, hyz.trans hzb⟩

end ChainState

end VBitcoin
