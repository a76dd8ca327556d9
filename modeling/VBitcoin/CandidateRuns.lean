import VBitcoin.CandidateSet

/-!
**Runs of the candidate set** — the operations that move the tip, clear flags and link
blocks keep `Covered` (`CandidateSet`) as well, under the conditions of
`CandidateStep.Safe`, and so no valid chain is forgotten in a run of steps that meet
them.
-/

namespace VBitcoin

open CBlockIndex List

namespace ChainState

open NodeEnv

variable {s s' : ChainState} {b c t p x : CBlockIndex} {queue : List CBlockIndex}

/-! ### Moving the tip -/

theorem Covered.connected (h : s.Covered) (hb : b ∈ s.m_block_index) (hlive : s.Live b)
    (hconnected : Connected s b s') : s'.Covered := by
  have hfailed : ∀ c, s'.failed c = s.failed c := by
    intro c
    unfold failed
    rw [hconnected.status]
    split
    · exact BlockStatus.failed_raiseValidity _ _
    · rfl
  have htxs : ∀ c, s'.haveTxsDownloaded c = s.haveTxsDownloaded c := by
    intro c
    unfold haveTxsDownloaded
    rw [hconnected.nChainTx]
  obtain ⟨t, htip, -, -, hclean⟩ := h.active
  have hkept : ({ s' with tip := s.tip } : ChainState).Covered := by
    refine @Covered.grow s { s' with tip := s.tip } h hconnected.index rfl hfailed htxs ?_ ?_
    · intro c hc
      rw [← hconnected.candidates] at hc
      exact hc
    · intro c hc
      exact h.members c (hconnected.candidates ▸ hc)
  refine ⟨hkept.members, hkept.cover, b, hconnected.tip, ?_, ?_, ?_⟩
  · rw [hconnected.index]
    exact hb
  · rw [htxs]
    exact hlive.2
  · intro c hc
    rw [hfailed]
    rcases hc.eq_or_lt with rfl | hlt
    · exact hlive.1
    · obtain ⟨p, hp⟩ := exists_pprev_of_lt hlt
      have hpt : p = t := by
        rw [hconnected.parent, htip] at hp
        exact (Option.some.inj hp).symm
      exact hclean c (hpt ▸ le_pprev_of_lt hlt hp)

theorem sameData_connectTip {verdict : ConnectVerdict} (hb : verdict = .connected → s.Checked b)
    (h : s.connectTip b verdict = .ok s') : SameData s s' := by
  simp only [connectTip, bind_eq_ok, require_eq_ok, exists_const] at h
  obtain ⟨-, h⟩ := h
  cases verdict with
  | connected =>
    have hmark : SameData s (s.modifyStatus b fun status =>
        { status with haveUndo := true }.raiseValidity .BLOCK_VALID_SCRIPTS) :=
      sameData_modifyStatus (fun status => BlockStatus.haveData_raiseValidity _ _)
        (iff_of_true ((hb rfl).trans (BlockStatus.level_le_raiseValidity
          { s.status b with haveUndo := true } _)) (hb rfl))
    rw [← pure_eq_ok_iff.mp h]
    exact ⟨rfl, rfl, hmark.nTx, hmark.nChainTx, hmark.haveData, hmark.checked⟩
  | invalid result =>
    rw [← pure_eq_ok_iff.mp h]
    exact sameData_invalidBlockFound result
  | systemError =>
    rw [← pure_eq_ok_iff.mp h]
    exact SameData.refl s

theorem Covered.disconnected (h : s.Covered) (hdata : DataOk [] s) (htip : s.tip = some t)
    (hp : t.pprev = some p) : ({ s with tip := t.pprev } : ChainState).Covered := by
  obtain ⟨t', htip', ht, htxs, hclean⟩ := h.active
  rw [htip] at htip'
  cases htip'
  have hle := pprev_le hp
  exact ⟨h.members, h.cover, p, hp, hdata.closed t ht p hle, (hdata.below ht htxs hle).1,
    fun c hc => hclean c (hc.trans hle)⟩

/-! ### `PreciousBlock` -/

theorem Covered.preciousBlock (h : s.Covered) (hdata : DataOk [] s) (hb : b ∈ s.m_block_index) :
    ∃ s', s.preciousBlock b = .ok s' ∧ SameData s s' ∧ s'.Covered := by
  obtain ⟨t, htip, -⟩ := h.active
  unfold ChainState.preciousBlock
  rw [htip]
  dsimp only
  split
  · exact ⟨s, rfl, SameData.refl s, h⟩
  · have hstatus : ∀ c, (s.resequence t b).status c = s.status c := by
      intro c
      unfold status resequence eraseCandidate
      simp only [modify_fields]
      split <;> rfl
    have hsame : SameData s (s.resequence t b) := by
      refine ⟨rfl, rfl, ?_, ?_, ?_, ?_⟩
      · intro c
        unfold resequence eraseCandidate
        simp only [modify_fields]
        split <;> rfl
      · intro c
        unfold resequence eraseCandidate
        simp only [modify_fields]
        split <;> rfl
      · intro c
        rw [hstatus]
      · intro c
        rw [Checked, Checked, hstatus]
    have htip₁ : (s.resequence t b).tip = s.tip := rfl
    have hmem : ∀ c, c ∈ (s.resequence t b).setBlockIndexCandidates ↔
        c ∈ s.setBlockIndexCandidates ∧ c ≠ b := fun c => mem_eraseCandidate _ b c
    generalize s.resequence t b = s₁ at *
    have hfailed : ∀ c, s₁.failed c = s.failed c := by
      intro c
      unfold failed
      rw [hstatus]
    have hcandidate : s₁.isCandidate b = true ↔ s.Live b := by
      rw [(hdata.sameData hsame).isCandidate_iff (by rw [hsame.index]; exact hb)]
      unfold Live
      rw [hfailed, hsame.haveTxs]
    by_cases hlive : s.Live b
    · rw [if_pos (hcandidate.mpr hlive)]
      have hcovered : (s₁.insertCandidate b).Covered := by
        refine @Covered.grow s (s₁.insertCandidate b) h hsame.index htip₁ hfailed hsame.haveTxs ?_ ?_
        · intro c hc
          rw [mem_insertCandidate, hmem]
          by_cases hcb : c = b
          · exact Or.inl hcb
          · exact Or.inr ⟨hc, hcb⟩
        · intro c hc
          rw [mem_insertCandidate, hmem] at hc
          rcases hc with rfl | ⟨hc, -⟩
          · exact ⟨hb, hlive⟩
          · exact h.members c hc
      exact ⟨_, hcovered.prune_eq, (hsame.trans (sameIndex_insertCandidate s₁ b).sameData).trans
        (sameIndex_prune hcovered.prune_eq).sameData, hcovered.prune⟩
    · -- the block was no candidate
      rw [if_neg (fun hcand => hlive (hcandidate.mp hcand))]
      refine ⟨s₁, rfl, hsame, h.grow hsame.index htip₁ hfailed hsame.haveTxs ?_ ?_⟩
      · intro c hc
        refine (hmem c).mpr ⟨hc, ?_⟩
        rintro rfl
        exact hlive (h.members c hc).2
      · intro c hc
        exact h.members c ((hmem c).mp hc).1

/-! ### `ResetBlockFailureFlags` -/

theorem mem_resetIfDescendant (s : ChainState) (x b c : CBlockIndex) :
    c ∈ (resetIfDescendant x s b).setBlockIndexCandidates ↔
      c ∈ s.setBlockIndexCandidates ∨
        (c = b ∧ x ≤ b ∧ s.isValid b .BLOCK_VALID_TRANSACTIONS = false ∧
          (s.modifyStatus b clearFailed).isCandidate b = true) := by
  unfold resetIfDescendant
  by_cases hle : x ≤ b
  · rw [getAncestor_eq_some_iff.mpr hle]
    cases hvalid : s.isValid b .BLOCK_VALID_TRANSACTIONS with
    | true => simp
    | false =>
      simp only [Bool.not_false, BEq.rfl, Bool.and_self, if_true, resetDescendant]
      have hbest : ∀ s₁ : ChainState, (if s₁.pindexBestInvalid = some b then
          { s₁ with pindexBestInvalid := none } else s₁).setBlockIndexCandidates =
          s₁.setBlockIndexCandidates := by
        intro s₁
        split <;> rfl
      rw [hbest]
      split
      · next hcand =>
        rw [mem_insertCandidate, or_comm]
        simp [hle, hcand]
      · next hcand => simp [hcand]
  · have hnot : ¬ b.getAncestor x.nHeight = some x := by
      rw [getAncestor_eq_some_iff]
      exact hle
    rw [if_neg (by simp [hnot])]
    simp [hle]

/-- Puts the blocks above `x` that were marked and have data into the set. -/
theorem resetDescendants_candidates (hdata : DataOk [] s) (bs : List CBlockIndex)
    (hbs : ∀ b ∈ bs, b ∈ s.m_block_index) :
    (∀ c ∈ s.setBlockIndexCandidates,
        c ∈ (bs.foldl (resetIfDescendant x) s).setBlockIndexCandidates) ∧
      (∀ c ∈ (bs.foldl (resetIfDescendant x) s).setBlockIndexCandidates,
        c ∈ s.setBlockIndexCandidates ∨
          (c ∈ s.m_block_index ∧ x ≤ c ∧ s.haveTxsDownloaded c = true)) ∧
      ∀ c ∈ bs, x ≤ c → s.failed c = true → s.haveTxsDownloaded c = true →
        c ∈ (bs.foldl (resetIfDescendant x) s).setBlockIndexCandidates := by
  induction bs generalizing s with
  | nil => exact ⟨fun _ hc => hc, fun _ hc => Or.inl hc, fun _ hc => absurd hc not_mem_nil⟩
  | cons b bs ih =>
    have hcleared : Cleared _ s (resetIfDescendant x s b) := cleared_resetIfDescendant x
    have hsame := hcleared.sameData
    obtain ⟨hkeep, hnew, hall⟩ := ih (hdata.sameData hsame) fun c hc => by
      rw [hsame.index]
      exact hbs c (mem_cons_of_mem b hc)
    have hb := hbs b mem_cons_self
    rw [foldl_cons]
    refine ⟨?_, ?_, ?_⟩
    · intro c hc
      exact hkeep c ((mem_resetIfDescendant s x b c).mpr (Or.inl hc))
    · intro c hc
      rcases hnew c hc with hc | ⟨hindex, hle, htxs⟩
      · rcases (mem_resetIfDescendant s x b c).mp hc with hc | ⟨rfl, hle, -, hcand⟩
        · exact Or.inl hc
        · refine Or.inr ⟨hb, hle, ?_⟩
          unfold isCandidate haveTxsDownloaded at hcand
          rw [Bool.and_eq_true, modifyStatus_nChainTx] at hcand
          exact hcand.2
      · rw [hsame.index] at hindex
        rw [hsame.haveTxs] at htxs
        exact Or.inr ⟨hindex, hle, htxs⟩
    · intro c hc hle hfailed htxs
      by_cases hcb : c = b
      · subst hcb
        apply hkeep c
        refine (mem_resetIfDescendant s x c c).mpr (Or.inr ⟨rfl, hle, ?_, ?_⟩)
        · unfold isValid BlockStatus.isValid
          unfold failed at hfailed
          rw [hfailed]
          rfl
        · have hchecked := (hdata.checked c hb).mp (hdata.linked c hb htxs).1
          unfold isCandidate isValid haveTxsDownloaded
          rw [modifyStatus_status, if_pos rfl, modifyStatus_nChainTx, Bool.and_eq_true]
          exact ⟨BlockStatus.isValid_iff.mpr ⟨rfl, hchecked⟩, htxs⟩
      · have hc := (mem_cons.mp hc).resolve_left hcb
        apply hall c hc hle
        · unfold failed
          rw [hcleared.kept c fun h => hcb h.1]
          exact hfailed
        · rw [hsame.haveTxs]
          exact htxs

theorem resetAncestors_candidates (path : List IndexEntry) (s : ChainState) :
    (resetAncestors path s).setBlockIndexCandidates = s.setBlockIndexCandidates := by
  induction path generalizing s with
  | nil => rfl
  | cons entry rest ih =>
    rw [resetAncestors, ih]
    unfold resetAncestor
    split <;> rfl

/-- Forgets nothing if each block that is cleared is covered afterwards. -/
theorem Covered.cleared {C : CBlockIndex → Prop} (h : s.Covered) (hcleared : Cleared C s s')
    (hsubset : s.setBlockIndexCandidates ⊆ s'.setBlockIndexCandidates)
    (hmembers : ∀ c ∈ s'.setBlockIndexCandidates, c ∈ s.setBlockIndexCandidates ∨
      (c ∈ s.m_block_index ∧ C c ∧ s.haveTxsDownloaded c = true))
    (hnew : ∀ y ∈ s.m_block_index, C y → s.failed y = true → s.haveTxsDownloaded y = true →
      ∃ c, s'.CoveredBy y c) : s'.Covered := by
  have hsame := hcleared.sameData
  have hfailed := hcleared.failed
  refine ⟨?_, ?_, ?_⟩
  · intro c hc
    unfold Live
    rw [hsame.index, hfailed, hsame.haveTxs]
    rcases hmembers c hc with hc | ⟨hindex, hC, htxs⟩
    · obtain ⟨hindex, hlive⟩ := h.members c hc
      exact ⟨hindex, Or.inl hlive.1, hlive.2⟩
    · exact ⟨hindex, Or.inr hC, htxs⟩
  · intro y hy hlive
    rw [hsame.index] at hy
    have htxs := (hsame.haveTxs y).symm.trans hlive.2
    cases hyf : s.failed y with
    | false =>
      obtain ⟨c, hc, hle, hpath⟩ := h.cover y hy ⟨hyf, htxs⟩
      exact ⟨c, hsubset hc, hle, fun z hyz hzc => (hfailed z).mpr (Or.inl (hpath z hyz hzc))⟩
    | true =>
      have hC := ((hfailed y).mp hlive.1).resolve_left (by simp [hyf])
      exact hnew y hy hC hyf htxs
  · obtain ⟨t, ht, htindex, httxs, hclean⟩ := h.active
    refine ⟨t, hcleared.tip.trans ht, ?_, ?_, fun c hc => (hfailed c).mpr (Or.inl (hclean c hc))⟩
    · rw [hsame.index]
      exact htindex
    · rw [hsame.haveTxs]
      exact httxs

/-- Descendants are put back; ancestors are covered through the block. -/
theorem Covered.resetBlockFailureFlags (h : s.Covered) (hdata : DataOk [] s)
    (hx : x ∈ s.m_block_index)
    (hsafe : s.haveTxsDownloaded x = true ∨
      ∀ a ≤ x, s.failed a = true → s.haveTxsDownloaded a = false) :
    ∃ s', s.resetBlockFailureFlags x = .ok s' ∧ DataOk [] s' ∧ s'.Covered := by
  have hcleared : Cleared (fun c => c ∈ s.m_block_index ∧ x ≤ c) s (s.resetDescendants x) :=
    cleared_foldl_resetIfDescendant x s.m_block_index
  obtain ⟨hkeep, hnew, hall⟩ : _ ∧ _ ∧ _ :=
    resetDescendants_candidates (x := x) hdata s.m_block_index fun _ hb => hb
  rw [← resetDescendants] at hkeep hnew hall
  have hsame := hcleared.sameData
  have hfailed := hcleared.failed
  unfold ChainState.resetBlockFailureFlags
  generalize s.resetDescendants x = s₁ at *
  have hcovered : s₁.Covered := by
    refine h.cleared hcleared hkeep ?_ ?_
    · intro c hc
      exact (hnew c hc).imp_right fun hc => ⟨hc.1, ⟨hc.1, hc.2.1⟩, hc.2.2⟩
    · intro y hy hC hyf htxs
      have hlive : s₁.Live y := ⟨(hfailed y).mpr (Or.inr hC), (hsame.haveTxs y).trans htxs⟩
      exact ⟨y, hlive.coveredBy_self (hall y hy hC.2 hyf htxs)⟩
  have hpruned := hcovered.prune
  have hsame₂ := hsame.trans (sameIndex_prune hcovered.prune_eq).sameData
  have hfailed₂ : ∀ c, ({ s₁ with setBlockIndexCandidates := s₁.keptCandidates } :
      ChainState).failed c = s₁.failed c := fun _ => rfl
  rw [hcovered.prune_eq, ok_bind]
  refine ⟨_, rfl, ?_⟩
  generalize ({ s₁ with setBlockIndexCandidates := s₁.keptCandidates } : ChainState) = s₂ at *
  have hcleared₂ := cleared_resetAncestors x s₂
  refine ⟨hdata.sameData (hsame₂.trans hcleared₂.sameData), hpruned.cleared hcleared₂ ?_ ?_ ?_⟩
  · rw [resetAncestors_candidates]
    exact List.Subset.refl _
  · intro c hc
    rw [resetAncestors_candidates] at hc
    exact Or.inl hc
  · -- an ancestor that was cleared just now
    intro y hy hyx hyf htxs
    unfold CoveredBy
    rw [resetAncestors_candidates]
    have hyfs : s.failed y = true := by
      rw [← Bool.not_eq_false]
      intro hnot
      rw [hfailed₂, (hfailed y).mpr (Or.inl hnot)] at hyf
      cases hyf
    rcases hsafe with hxtxs | hnone
    · have hxlive : s₂.Live x := by
        refine ⟨?_, (hsame₂.haveTxs x).trans hxtxs⟩
        rw [hfailed₂]
        exact (hfailed x).mpr (Or.inr ⟨hx, le_refl x⟩)
      obtain ⟨c, hc, hle, hpath⟩ := hpruned.cover x (by rw [hsame₂.index]; exact hx) hxlive
      refine ⟨c, hc, hyx.trans hle, ?_⟩
      intro z hyz hzc
      rw [hcleared₂.failed]
      exact (le_or_le hzc hle).symm.imp_left fun hxz => hpath z hxz hzc
    · have := hnone y hyx hyfs
      rw [← hsame₂.haveTxs, htxs] at this
      cases this

/-! ### `FindBestChain` -/

variable {E : NodeEnv}

variable {host : ChainHost} {best : Option CBlockIndex × ChainState}

theorem considerCandidate_cases {best' : Option CBlockIndex × ChainState}
    (h : E.considerCandidate host best b = .ok best') :
    best'.2 = best.2 ∨ ∃ usable, best.2.testBlockIndex b = .ok (usable, best'.2) := by
  unfold considerCandidate at h
  split at h
  · cases h
    exact Or.inl rfl
  · simp only [bind_eq_ok, Prod.exists] at h
    obtain ⟨usable, s, htest, h⟩ := h
    right
    refine ⟨usable, ?_⟩
    rw [htest]
    split at h
    · cases h
      rfl
    · split at h
      · cases h
        rfl
      · split at h <;>
        · simp only [bind_eq_ok, pure_eq_ok_iff] at h
          obtain ⟨_, _, rfl⟩ := h
          rfl

theorem Covered.findBestChain
    (h : s.Covered) (hdata : DataOk [] s) (hrun : E.findBestChain host s = .ok best) :
    SameData s best.2 ∧ best.2.Covered := by
  unfold NodeEnv.findBestChain at hrun
  split at hrun
  · cases hrun
    exact ⟨SameData.refl s, h⟩
  · have hstep : ∀ (c : CBlockIndex) rest (best best' : Option CBlockIndex × ChainState),
        ((∀ x ∈ c :: rest, x ∈ s.m_block_index ∧ s.haveTxsDownloaded x = true) ∧
          SameData s best.2 ∧ best.2.Covered) →
        E.considerCandidate host best c = .ok best' →
        (∀ x ∈ rest, x ∈ s.m_block_index ∧ s.haveTxsDownloaded x = true) ∧
          SameData s best'.2 ∧ best'.2.Covered := by
      rintro c rest best best' ⟨hall, hsame, hcovered⟩ hturn
      refine ⟨(forall_mem_cons.mp hall).2, ?_⟩
      rcases considerCandidate_cases hturn with heq | ⟨usable, htest⟩
      · rw [heq]
        exact ⟨hsame, hcovered⟩
      · obtain ⟨hindex, htxs⟩ := hall c mem_cons_self
        rw [← hsame.index] at hindex
        rw [← hsame.haveTxs] at htxs
        obtain ⟨hcovered', hsame'⟩ :=
          hcovered.testBlockIndex (hdata.sameData hsame) hindex htxs htest
        exact ⟨hsame.trans hsame', hcovered'⟩
    have hstart : ∀ x ∈ s.setBlockIndexCandidates.insertionSort fun a b => !s.workLess host b a,
        x ∈ s.m_block_index ∧ s.haveTxsDownloaded x = true := by
      intro x hx
      obtain ⟨hindex, hlive⟩ := h.members x ((mem_insertionSort _).mp hx)
      exact ⟨hindex, hlive.2⟩
    exact (foldlM_induction (fun rest best =>
      (∀ x ∈ rest, x ∈ s.m_block_index ∧ s.haveTxsDownloaded x = true) ∧
        SameData s best.2 ∧ best.2.Covered) hstep ⟨hstart, SameData.refl s, h⟩ hrun).2

/-! ### `ReceivedBlockTransactions` -/

theorem Covered.linkBlock (h : s.Covered) (hb : b ∈ s.m_block_index) (hfailed : s.failed b = false)
    (htxs : ∀ c, (linkBlock s b).haveTxsDownloaded c = (decide (c = b) || s.haveTxsDownloaded c)) :
    (linkBlock s b).Covered := by
  have hmem : ∀ c, c ∈ (NodeEnv.linkBlock s b).setBlockIndexCandidates ↔
      c = b ∨ c ∈ s.setBlockIndexCandidates := fun c => mem_insertCandidate _ b c
  have hfailed' : ∀ c, (NodeEnv.linkBlock s b).failed c = s.failed c := by
    intro c
    unfold failed
    rw [linkBlock_status]
  have hlive : ∀ c, (NodeEnv.linkBlock s b).Live c ↔ c = b ∨ s.Live c := by
    intro c
    unfold Live
    rw [hfailed', htxs, Bool.or_eq_true, decide_eq_true_eq]
    constructor
    · rintro ⟨hf, rfl | hc⟩
      · exact Or.inl rfl
      · exact Or.inr ⟨hf, hc⟩
    · rintro (rfl | ⟨hf, hc⟩)
      · exact ⟨hfailed, Or.inl rfl⟩
      · exact ⟨hf, Or.inr hc⟩
  refine ⟨?_, ?_, ?_⟩
  · intro c hc
    rw [hlive]
    rcases (hmem c).mp hc with rfl | hc
    · exact ⟨hb, Or.inl rfl⟩
    · exact ⟨(h.members c hc).1, Or.inr (h.members c hc).2⟩
  · intro y hy hy'
    rcases (hlive y).mp hy' with rfl | hold
    · exact ⟨y, hy'.coveredBy_self ((hmem y).mpr (Or.inl rfl))⟩
    · obtain ⟨c, hc, hle, hpath⟩ := h.cover y hy hold
      refine ⟨c, (hmem c).mpr (Or.inr hc), hle, ?_⟩
      intro z hyz hzc
      rw [hfailed']
      exact hpath z hyz hzc
  · obtain ⟨t, htip, ht, httxs, hclean⟩ := h.active
    refine ⟨t, htip, ht, ?_, ?_⟩
    · rw [htxs, httxs, Bool.or_true]
    · intro c hc
      rw [hfailed']
      exact hclean c hc

/-- The block is linked, with those that waited for it, or waits itself. -/
theorem Covered.receivedBlockTransactions {block : CBlock} (h : s.Covered) (hdata : DataOk [] s)
    (hb : b ∈ s.m_block_index) (hfailed : s.failed b = false)
    (hnew : (s.status b).haveData = false)
    (hparent : ∀ p, b.pprev = some p →
      s.haveTxsDownloaded p = true ∨ s.isValid p .BLOCK_VALID_TREE = true)
    (hlinkable : (E.recordData s block b).Linkable b) :
    ∃ s', E.receivedBlockTransactions s block b = .ok s' ∧ DataOk [] s' ∧ s'.Covered := by
  have hnot : s.haveTxsDownloaded b = false := by
    rw [← Bool.not_eq_true]
    intro htxs
    rw [(hdata.linked b hb htxs).1] at hnew
    cases hnew
  have htxs := recordData_haveTxs E block hnot
  have hself := (recordData_status_self E block hfailed).1
  have hdata₁ : DataOk [b] (E.recordData s block b) := hdata.recordData E block hfailed hnot
  have hcovered₁ : (E.recordData s block b).Covered :=
    h.grow rfl rfl (recordData_failed E block hfailed) htxs (fun _ hc => hc) h.members
  have hvalid : ∀ p, b.pprev = some p → s.haveTxsDownloaded p = false →
      (E.recordData s block b).isValid p .BLOCK_VALID_TREE = true := by
    intro p hp hpnot
    rw [← (hparent p hp).resolve_left (Bool.eq_false_iff.mp hpnot)]
    unfold isValid status
    rw [recordData_of_ne E block (pprev_lt hp).ne]
  have hb₁ : b ∈ (E.recordData s block b).m_block_index := hb
  unfold NodeEnv.receivedBlockTransactions
  dsimp only
  generalize E.recordData s block b = s₁ at *
  have hlink : (∀ p, b.pprev = some p → s₁.haveTxsDownloaded p = true) →
      DataOk [] (linkBlocks (s₁.m_blocks_unlinked.length + 1) [b] s₁) ∧
        (linkBlocks (s₁.m_blocks_unlinked.length + 1) [b] s₁).Covered := by
    intro hlinked
    apply @linkBlocks_rule b Covered
    · intro s b queue hdata hqueued hfailed hcount hcovered
      exact hcovered.linkBlock hqueued.index hfailed
        (linkBlock_haveTxs hdata hqueued.index hqueued.parent hcount)
    · simp only [length_singleton]
      omega
    · exact hdata₁
    · exact hlinkable
    · intro q hq
      rw [mem_singleton] at hq
      subst hq
      refine ⟨hb₁, le_refl q, ?_, hlinked⟩
      intro y hqy hyq
      rw [le_antisymm hyq hqy]
      exact hself
    · exact hcovered₁
  have hready : ∀ s₂ : ChainState, DataOk [] s₂ ∧ s₂.Covered →
      ∃ s', s₂.pruneBlockIndexCandidates = .ok s' ∧ DataOk [] s' ∧ s'.Covered := by
    rintro s₂ ⟨hdata₂, hcovered₂⟩
    exact ⟨_, hcovered₂.prune_eq, hdata₂.sameData (sameIndex_prune hcovered₂.prune_eq).sameData,
      hcovered₂.prune⟩
  apply hready
  cases hp : b.pprev with
  | none =>
    dsimp only
    exact hlink (by simp [hp])
  | some p =>
    dsimp only
    cases hptxs : s.haveTxsDownloaded p with
    | true =>
      rw [if_pos ((htxs p).trans hptxs)]
      apply hlink
      intro q hq
      rw [hp] at hq
      cases hq
      exact (htxs p).trans hptxs
    | false =>
      have hpnot : s₁.haveTxsDownloaded p = false := (htxs p).trans hptxs
      rw [if_neg (Bool.eq_false_iff.mp hpnot), if_pos (hvalid p hp hptxs)]
      exact ⟨hdata₁.wait hb₁ hp hself hpnot,
        hcovered₁.grow rfl rfl (fun _ => rfl) (fun _ => rfl) (fun _ hc => hc) hcovered₁.members⟩

end ChainState

/-! ### Runs -/

inductive CandidateStep where
  | receivedBlockTransactions (block : CBlock) (pindexNew : CBlockIndex)
  | connectTip (pindexNew : CBlockIndex) (verdict : ChainState.ConnectVerdict)
  | disconnectTip (host : ChainHost)
  | invalidateBlock (host : ChainHost) (pindex : CBlockIndex)
  | resetBlockFailureFlags (pindex : CBlockIndex)
  | preciousBlock (pindex : CBlockIndex)
  | findBestChain (host : ChainHost)
  | testBlockIndex (pindexTest : CBlockIndex)
  | pruneBlockIndexCandidates

namespace CandidateStep

open ChainState

/-- `InvalidBlockFound` is what `ConnectTip` calls for an invalid block. -/
def run (E : NodeEnv) : CandidateStep → ChainState → Run ChainState
  | receivedBlockTransactions block pindexNew, s => E.receivedBlockTransactions s block pindexNew
  | connectTip pindexNew verdict, s => s.connectTip pindexNew verdict
  | disconnectTip host, s => pure ((s.disconnectTip host).getD s)
  | invalidateBlock host pindex, s => do
    let (_, s) ← s.invalidateBlock host pindex
    pure s
  | resetBlockFailureFlags pindex, s => s.resetBlockFailureFlags pindex
  | preciousBlock pindex, s => s.preciousBlock pindex
  | findBestChain host, s => do
    let (_, s) ← E.findBestChain host s
    pure s
  | testBlockIndex pindexTest, s => do
    let (_, s) ← s.testBlockIndex pindexTest
    pure s
  | pruneBlockIndexCandidates, s => s.pruneBlockIndexCandidates

/-- Data arrives once, for an unmarked block. Not ensured by the code: an unmarked parent while its
    data is missing, and `Linkable`. -/
structure SafeData (E : NodeEnv) (s : ChainState) (block : CBlock) (b : CBlockIndex) : Prop where
  index : b ∈ s.m_block_index
  failed : s.failed b = false
  first : (s.status b).haveData = false
  parent : ∀ p, b.pprev = some p →
    s.haveTxsDownloaded p = true ∨ s.isValid p .BLOCK_VALID_TREE = true
  linkable : (E.recordData s block b).Linkable b

def Safe (E : NodeEnv) (s : ChainState) : CandidateStep → Prop
  | receivedBlockTransactions block pindexNew => SafeData E s block pindexNew
  | connectTip pindexNew verdict =>
    verdict = .connected → pindexNew ∈ s.m_block_index ∧ s.Live pindexNew
  | disconnectTip _ => ∀ t, s.tip = some t → t.pprev ≠ none
  | resetBlockFailureFlags pindex =>
    -- the ancestors that are cleared are not put back into the set
    pindex ∈ s.m_block_index ∧ (s.haveTxsDownloaded pindex = true ∨
      ∀ a ≤ pindex, s.failed a = true → s.haveTxsDownloaded a = false)
  | preciousBlock pindex => pindex ∈ s.m_block_index
  | testBlockIndex pindexTest =>
    pindexTest ∈ s.m_block_index ∧ s.haveTxsDownloaded pindexTest = true
  | _ => True

end CandidateStep

namespace ChainState

open CandidateStep

variable {E : NodeEnv} {s s' : ChainState}

structure Ready (s : ChainState) : Prop where
  data : DataOk [] s
  covered : s.Covered

variable {b g : CBlockIndex} {host : ChainHost}

theorem Ready.connectTip {verdict : ConnectVerdict} (h : s.Ready)
    (hsafe : verdict = .connected → b ∈ s.m_block_index ∧ s.Live b)
    (hrun : s.connectTip b verdict = .ok s') : s'.Ready := by
  have hsame : SameData s s' := by
    apply sameData_connectTip _ hrun
    intro hverdict
    obtain ⟨hb, hlive⟩ := hsafe hverdict
    exact (h.data.checked b hb).mp (h.data.linked b hb hlive.2).1
  refine ⟨h.data.sameData hsame, ?_⟩
  cases verdict with
  | connected =>
    obtain ⟨hb, hlive⟩ := hsafe rfl
    exact h.covered.connected hb hlive (connected_of_connectTip hrun)
  | invalid result =>
    simp only [ChainState.connectTip, bind_eq_ok, require_eq_ok, exists_const, pure_eq_ok_iff,
      beq_iff_eq] at hrun
    obtain ⟨hparent, rfl⟩ := hrun
    exact h.covered.invalidBlockFound hparent result
  | systemError =>
    simp only [ChainState.connectTip, bind_eq_ok, require_eq_ok, exists_const, pure_eq_ok_iff]
      at hrun
    rw [← hrun.2]
    exact h.covered

theorem Ready.disconnectTip (h : s.Ready)
    (hsafe : ∀ t, s.tip = some t → t.pprev ≠ none) : ((s.disconnectTip host).getD s).Ready := by
  cases hrun : s.disconnectTip host with
  | none => exact h
  | some s' =>
    obtain ⟨t, htip, rfl⟩ := disconnectTip_eq_some hrun
    obtain ⟨p, hp⟩ := Option.ne_none_iff_exists'.mp (hsafe t htip)
    refine ⟨h.data.sameData ?_, h.covered.disconnected h.data htip hp⟩
    exact ⟨rfl, rfl, fun _ => rfl, fun _ => rfl, fun _ => rfl, fun _ => Iff.rfl⟩

/-! ### The assertion of `PruneBlockIndexCandidates` -/

abbrev NotEmptied (stop : Stop) : Prop :=
  stop ≠ .assertion "!setBlockIndexCandidates.empty()"

theorem notEmptied_testWalk (b : CBlockIndex) (path : List IndexEntry) :
    StopsWith NotEmptied (testWalk b s path) := by
  induction path with
  | nil => exact stopsWith_ok _ _
  | cons entry rest ih =>
    rw [testWalk]
    dsimp only
    split
    · exact stopsWith_ok _ _
    · refine stopsWith_require_bind (by decide) fun _ => ?_
      split
      · exact stopsWith_ok _ _
      · exact ih

theorem notEmptied_considerCandidate (best : Option CBlockIndex × ChainState)
    (b : CBlockIndex) : StopsWith NotEmptied (E.considerCandidate host best b) := by
  unfold NodeEnv.considerCandidate
  have hcompare : ∀ left right, StopsWith NotEmptied (E.compareForks host left right) := by
    intro left right
    unfold NodeEnv.compareForks
    refine stopsWith_ite (stopsWith_ok _ _) ?_
    refine stopsWith_ite (stopsWith_ok _ _) ?_
    exact stopsWith_require_bind (by decide) fun _ => stopsWith_ok _ _
  split
  · exact stopsWith_ok _ _
  · refine stopsWith_bind (notEmptied_testWalk b b.path) ?_
    intro r _
    split
    split
    · exact stopsWith_ok _ _
    · split
      · exact stopsWith_ok _ _
      · split
        · exact stopsWith_bind (hcompare _ b) fun _ _ => stopsWith_ok _ _
        · exact stopsWith_ok _ _

/-- A safe step keeps chains covered and does not meet the assertion. -/
theorem Ready.step {step : CandidateStep} (h : s.Ready) (hsafe : step.Safe E s) :
    StopsWith NotEmptied (step.run E s) ∧ ∀ s', step.run E s = .ok s' → s'.Ready := by
  have hends : ∀ {s₁ : ChainState}, step.run E s = .ok s₁ → s₁.Ready →
      StopsWith NotEmptied (step.run E s) ∧ ∀ s', step.run E s = .ok s' → s'.Ready := by
    intro s₁ hok hready
    rw [hok]
    refine ⟨stopsWith_ok _ _, ?_⟩
    rintro _ ⟨⟩
    exact hready
  obtain ⟨hdata, hcovered⟩ := h
  cases step with
  | receivedBlockTransactions block b =>
    obtain ⟨s₁, hok, hready⟩ := hcovered.receivedBlockTransactions hdata hsafe.index
      hsafe.failed hsafe.first hsafe.parent hsafe.linkable
    exact hends hok ⟨hready.1, hready.2⟩
  | connectTip b verdict =>
    refine ⟨?_, fun s' => Ready.connectTip ⟨hdata, hcovered⟩ hsafe⟩
    refine stopsWith_require_bind (by decide) fun _ => ?_
    cases verdict <;> exact stopsWith_ok _ _
  | disconnectTip host => exact hends rfl (Ready.disconnectTip ⟨hdata, hcovered⟩ hsafe)
  | invalidateBlock host b =>
    cases hp : b.pprev with
    | none =>
      rw [run, ChainState.invalidateBlock, hp]
      exact ⟨stopsWith_error (by decide), nofun⟩
    | some p =>
      obtain ⟨completed, s₁, hok, hready⟩ := hcovered.invalidateBlock hdata hp host
      exact hends (by rw [run, hok]; rfl) ⟨hready.1, hready.2⟩
  | resetBlockFailureFlags b =>
    obtain ⟨s₁, hok, hready⟩ := hcovered.resetBlockFailureFlags hdata hsafe.1 hsafe.2
    exact hends hok ⟨hready.1, hready.2⟩
  | preciousBlock b =>
    obtain ⟨s₁, hok, hsame, hcovered₁⟩ := hcovered.preciousBlock hdata hsafe
    exact hends hok ⟨hdata.sameData hsame, hcovered₁⟩
  | findBestChain host =>
    constructor
    · refine stopsWith_bind (stopsWith_ite (stopsWith_ok _ _) ?_) fun _ _ => stopsWith_ok _ _
      exact stopsWith_foldlM (fun _ => True) (fun _ _ _ _ _ => trivial)
        (fun best b _ => notEmptied_considerCandidate best b) trivial
    · intro s' hrun
      simp only [run, bind_eq_ok, pure_eq_ok_iff, Prod.exists] at hrun
      obtain ⟨best, s₁, hrun, rfl⟩ := hrun
      obtain ⟨hsame, hcovered₁⟩ := hcovered.findBestChain hdata hrun
      exact ⟨hdata.sameData hsame, hcovered₁⟩
  | testBlockIndex b =>
    refine ⟨stopsWith_bind (notEmptied_testWalk b b.path) fun _ _ => stopsWith_ok _ _, ?_⟩
    intro s' hrun
    simp only [run, bind_eq_ok, pure_eq_ok_iff, Prod.exists] at hrun
    obtain ⟨usable, s₁, hrun, rfl⟩ := hrun
    obtain ⟨hcovered₁, hsame⟩ := hcovered.testBlockIndex hdata hsafe.1 hsafe.2 hrun
    exact ⟨hdata.sameData hsame, hcovered₁⟩
  | pruneBlockIndexCandidates =>
    refine hends hcovered.prune_eq ⟨?_, hcovered.prune⟩
    exact hdata.sameData (sameIndex_prune hcovered.prune_eq).sameData

/-! ### The start -/

/-- Genesis is connected, and of the other blocks the headers are known at most. -/
structure GenesisConnected (g : CBlockIndex) (s : ChainState) : Prop where
  root : g.pprev = none
  tip : s.tip = some g
  index : g ∈ s.m_block_index
  closed : ∀ d ∈ s.m_block_index, ∀ a ≤ d, a ∈ s.m_block_index
  candidates : s.setBlockIndexCandidates = [g]
  unlinked : s.m_blocks_unlinked = []
  failed : s.failed g = false
  haveData : (s.status g).haveData = true
  checked : s.Checked g
  counted : (s.fields g).nChainTx = (s.fields g).nTx
  nTx : 0 < (s.fields g).nTx ∧ (s.fields g).nTx < 2 ^ 32
  headers : ∀ b ∈ s.m_block_index, b ≠ g →
    (s.status b).haveData = false ∧ ¬ s.Checked b ∧ (s.fields b).nChainTx = 0

theorem GenesisConnected.haveTxs_iff (h : s.GenesisConnected g)
    (hb : b ∈ s.m_block_index) : s.haveTxsDownloaded b = true ↔ b = g := by
  unfold haveTxsDownloaded
  constructor
  · intro hne
    by_contra hbg
    rw [(h.headers b hb hbg).2.2] at hne
    cases hne
  · rintro rfl
    rw [h.counted]
    simpa using h.nTx.1.ne'

theorem GenesisConnected.ready (h : s.GenesisConnected g) : s.Ready := by
  have hdata_iff : ∀ b ∈ s.m_block_index, (s.status b).haveData = true → b = g := by
    intro b hb hdata
    by_contra hbg
    rw [(h.headers b hb hbg).1] at hdata
    cases hdata
  refine ⟨⟨h.closed, ?_, ?_, ?_, ?_, ?_⟩, ?_, ?_, ?_⟩
  · intro b hb hlinked
    rw [(h.haveTxs_iff hb).mp hlinked, h.root]
    exact ⟨h.haveData, fun p hp => by cases hp⟩
  · intro b hb
    by_cases hbg : b = g
    · rw [hbg]
      exact iff_of_true h.haveData h.checked
    · obtain ⟨hnot, hchecked, -⟩ := h.headers b hb hbg
      exact iff_of_false (Bool.eq_false_iff.mp hnot) hchecked
  · intro b hb hlinked
    rw [(h.haveTxs_iff hb).mp hlinked, h.counted, chainTx_path,
      pprev_eq_none.mp h.root, chainTx, Nat.add_zero, Nat.mod_eq_of_lt h.nTx.2]
  · intro b hb hdata hnot
    have hbg := hdata_iff b hb hdata
    rw [(h.haveTxs_iff hb).mpr hbg] at hnot
    cases hnot
  · intro w hw
    rw [h.unlinked] at hw
    cases hw
  · intro c hc
    rw [h.candidates, mem_singleton] at hc
    rw [hc]
    exact ⟨h.index, h.failed, (h.haveTxs_iff h.index).mpr rfl⟩
  · intro b hb hlive
    have hbg := (h.haveTxs_iff hb).mp hlive.2
    refine ⟨b, hlive.coveredBy_self ?_⟩
    rw [h.candidates, hbg]
    exact mem_cons_self
  · refine ⟨g, h.tip, h.index, (h.haveTxs_iff h.index).mpr rfl, ?_⟩
    intro c hc
    rw [eq_of_le_of_pprev_none hc h.root]
    exact h.failed

/-! ### No chain is forgotten -/

/-- **The candidate set over whole runs.** After safe steps every complete, unmarked chain is below
    a candidate on an unmarked chain; the set is not empty, and its assertion holds in the next safe
    step. -/
theorem no_chain_forgotten (E : NodeEnv) (g : CBlockIndex) (start s : ChainState)
    (hstart : start.GenesisConnected g)
    (hreached : Reached (CandidateStep.run E) (CandidateStep.Safe E) start s) :
    (∀ b ∈ s.m_block_index, (∀ a < b, (s.status a).haveData = true) →
      Validity.BLOCK_VALID_TRANSACTIONS.level ≤ (s.status b).valid.level →
      (∀ a ≤ b, s.failed a = false) →
      ∃ c ∈ s.setBlockIndexCandidates, b ≤ c ∧ ∀ a ≤ c, s.failed a = false) ∧
    s.setBlockIndexCandidates ≠ [] ∧
    ∀ step : CandidateStep, step.Safe E s →
      step.run E s ≠ .error (.assertion "!setBlockIndexCandidates.empty()") := by
  have hready : s.Ready :=
    hreached.invariant Ready hstart.ready fun _ _ s' h hsafe => (h.step hsafe).2 s'
  refine ⟨?_, hready.covered.candidates_ne_nil, ?_⟩
  · intro b hb hdata hchecked hclean
    have hlinked : s.haveTxsDownloaded b = true := by
      apply hready.data.linked_of_data hb
      intro a ha
      rcases ha.eq_or_lt with rfl | hlt
      · exact (hready.data.checked a hb).mpr hchecked
      · exact hdata a hlt
    obtain ⟨c, hc, hle, hpath⟩ := hready.covered.cover b hb ⟨hclean b (le_refl b), hlinked⟩
    refine ⟨c, hc, hle, ?_⟩
    intro a ha
    rcases le_or_le ha hle with hab | hba
    · exact hclean a hab
    · exact hpath a hba ha
  · intro step hsafe hstop
    exact (hready.step hsafe).1 _ hstop rfl

end ChainState

namespace Regtest

def headersState : ChainState where
  m_block_index := [indexGenesis, blockA, blockB]
  fields b :=
    if b = indexGenesis then {
      nStatus := { valid := .BLOCK_VALID_SCRIPTS, haveData := true, haveUndo := true }
      nTx := 1
      nChainWork := 2
      nChainTx := 1
      nSequenceId := 0 }
    else {
      nStatus := { valid := .BLOCK_VALID_TREE }
      nTx := 0
      nChainWork := 2 * (b.nHeight + 1)
      nChainTx := 0
      nSequenceId := 0 }
  tip := some indexGenesis
  setBlockIndexCandidates := [indexGenesis]
  m_blocks_unlinked := []
  m_failed_blocks := []
  pindexBestInvalid := none
  pindexBestHeader := some blockB
  nBlockSequenceId := 1
  nBlockReverseSequenceId := -1
  nLastPreciousChainwork := 0
  altTree := ⟨[], []⟩

def arrives (b : CBlockIndex) : CandidateStep :=
  .receivedBlockTransactions (blockOn [genesis] [filler]) b

theorem headersState_connected : headersState.GenesisConnected indexGenesis where
  root := rfl
  tip := rfl
  index := mem_cons_self
  closed := by
    have hA : ∀ a ≤ blockA, a ∈ headersState.m_block_index := by
      intro a ha
      rcases ha.eq_or_lt with rfl | hlt
      · decide
      · rw [eq_of_le_of_pprev_none (le_pprev_of_lt hlt rfl) rfl]
        decide
    intro d hd a ha
    simp only [headersState, mem_cons, not_mem_nil, or_false] at hd
    rcases hd with rfl | rfl | rfl
    · rw [eq_of_le_of_pprev_none ha rfl]
      decide
    · exact hA a ha
    · rcases ha.eq_or_lt with rfl | hlt
      · decide
      · exact hA a (le_pprev_of_lt hlt rfl)
  candidates := rfl
  unlinked := rfl
  failed := rfl
  haveData := rfl
  checked := by
    unfold ChainState.Checked
    decide
  counted := rfl
  nTx := by decide
  headers := by
    unfold ChainState.Checked
    decide

theorem first_block_remembered : ∃ s, (arrives blockA).run env headersState = .ok s ∧
    ∃ c ∈ s.setBlockIndexCandidates, blockA ≤ c ∧ ∀ a ≤ c, s.failed a = false := by
  have hlinkable :
      (env.recordData headersState (blockOn [genesis] [filler]) blockA).Linkable blockA := by
    intro x hx hle hdata
    simp only [NodeEnv.recordData, ChainState.modify, headersState, mem_cons,
      not_mem_nil, or_false] at hx
    rcases hx with rfl | rfl | rfl
    · exact absurd hle (by decide)
    · decide
    · exact absurd (hdata blockB (by decide) (le_refl _)) (by decide)
  have hsafe : (arrives blockA).Safe env headersState := by
    refine ⟨by decide, rfl, rfl, ?_, hlinkable⟩
    rintro p hp
    cases hp
    exact Or.inl rfl
  have hfacts : ((arrives blockA).run env headersState).map (fun s =>
      ([indexGenesis, blockA].map fun b => ((s.status b).haveData, s.failed b),
        s.m_block_index, (s.status blockA).valid)) =
      .ok ([(true, false), (true, false)], [indexGenesis, blockA, blockB],
        .BLOCK_VALID_TRANSACTIONS) := by
    decide
  cases hrun : (arrives blockA).run env headersState with
  | error stop =>
    rw [hrun] at hfacts
    cases hfacts
  | ok s =>
    rw [hrun] at hfacts
    simp only [Except.map, Except.ok.injEq, Prod.mk.injEq, map_cons, map_nil,
      List.cons.injEq, and_true] at hfacts
    obtain ⟨⟨⟨hdata, hgenesis⟩, -, hclean⟩, hindex, hvalid⟩ := hfacts
    have hbelow : ∀ a < blockA, a = indexGenesis := fun a ha =>
      eq_of_le_of_pprev_none (le_pprev_of_lt ha rfl) rfl
    refine ⟨s, rfl, (ChainState.no_chain_forgotten env indexGenesis headersState s
      headersState_connected (Reached.start.step hsafe hrun)).1 blockA ?_ ?_ ?_ ?_⟩
    · rw [hindex]
      decide
    · intro a ha
      rw [hbelow a ha]
      exact hdata
    · rw [hvalid]
    · intro a ha
      rcases ha.eq_or_lt with rfl | hlt
      · exact hclean
      · rw [hbelow a hlt]
        exact hgenesis

def runSteps (steps : List CandidateStep) : Run ChainState :=
  steps.foldlM (fun s step => step.run env s) headersState

def candidateView (s : ChainState) : List CBlockIndex × List (Bool × Bool × Bool) :=
  (s.setBlockIndexCandidates,
    [blockA, blockB].map fun b => ((s.status b).haveData, s.haveTxsDownloaded b, s.failed b))

/-- A waiting block is invalidated; then its parent's data comes. -/
def markedChildRun : List CandidateStep :=
  [arrives blockB, .invalidateBlock workingHost blockB, arrives blockA]

/-- A marked child replaces its parent and `FindBestChain` empties the set; a block cleared as an
    ancestor is not put back; one that came under a marked parent is never linked. -/
theorem chains_forgotten :
    (runSteps markedChildRun).map candidateView =
      .ok ([blockB], [(true, true, false), (true, true, true)]) ∧
    (runSteps (markedChildRun ++
        [.findBestChain workingHost, .pruneBlockIndexCandidates])).map candidateView =
      .error (.assertion "!setBlockIndexCandidates.empty()") ∧
    (runSteps [arrives blockA, .invalidateBlock workingHost blockA,
        .resetBlockFailureFlags blockB]).map candidateView =
      .ok ([indexGenesis], [(true, true, false), (false, false, false)]) ∧
    (runSteps [.invalidateBlock workingHost blockA, arrives blockB,
        .resetBlockFailureFlags blockA, arrives blockA]).map candidateView =
      .ok ([blockA], [(true, true, false), (true, false, false)]) := by
  refine ⟨?_, ?_, ?_, ?_⟩ <;> decide

end Regtest

end VBitcoin
