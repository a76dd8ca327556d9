import VBitcoin.ChainStateFacts

/-!
**The marks of `InvalidateBlock`** — the loop marks each block that it disconnects as failed,
and then wants to turn the mark of the previous one into that of a descendant.  It looks for it
below the block just disconnected, and it is above: the mark stays (`Disconnected`), so the
right blocks are marked only when there is one to disconnect.
-/

namespace VBitcoin

open CBlockIndex

namespace ChainState

/-! ### The loop -/

/-- The blocks above `t` are off, of a chain whose tip was `t₀`. -/
structure Disconnected (s : ChainState) (pindex t₀ t : CBlockIndex) (l : InvalidateLoop) : Prop where
  le : t ≤ t₀
  tip : l.state.tip = some t
  index : l.state.m_block_index = s.m_block_index
  failed_blocks : l.state.m_failed_blocks = s.m_failed_blocks
  unlinked : l.state.m_blocks_unlinked = s.m_blocks_unlinked
  altTree : l.state.altTree = s.altTree
  candidate : t = t₀ ∨ t ∈ l.state.setBlockIndexCandidates
  fields : ∀ c, l.state.fields c =
    if c ≤ t₀ ∧ ¬ c ≤ t then { s.fields c with nStatus.failedValid := true } else s.fields c
  /-- `to_mark_failed` is the block of the previous turn. -/
  last : (t = t₀ ∧ l.to_mark_failed = pindex) ∨
    (l.to_mark_failed.pprev = some t ∧ l.to_mark_failed ≤ t₀ ∧ pindex ≤ l.to_mark_failed)

variable {host : ChainHost} {s : ChainState} {pindex t₀ t p : CBlockIndex} {l : InvalidateLoop}

theorem Disconnected.markChild_eq (h : Disconnected s pindex t₀ t l)
    (hbefore : (s.status pindex).failedValid = false) (hp : t.pprev = some p) :
    (l.state.markDisconnected t p).markChild p l.to_mark_failed = l.state.markDisconnected t p := by
  unfold markChild
  apply if_neg
  intro hmarked
  simp only [Bool.and_eq_true, decide_eq_true_eq] at hmarked
  obtain ⟨rfl, hmarked⟩ := hmarked
  rcases h.last with ⟨-, hlast⟩ | ⟨hlast, -, -⟩
  · -- the first turn: the block itself, which is not marked yet
    have hstatus : (l.state.markDisconnected t l.to_mark_failed).status l.to_mark_failed =
        s.status pindex := by
      unfold status markDisconnected
      simp only [insertCandidate, eraseCandidate, modifyStatus, modify_fields,
        if_neg (pprev_lt hp).ne]
      rw [h.fields, if_neg, hlast]
      rintro ⟨-, hnot⟩
      exact hnot (pprev_le hp)
    rw [hstatus, hbefore] at hmarked
    cases hmarked
  · -- later turns: the block of the previous turn is above the one of this turn
    have habove := nHeight_pprev hlast
    have hbelow := nHeight_pprev hp
    omega

theorem Disconnected.mark (h : Disconnected s pindex t₀ t l)
    (hbefore : (s.status pindex).failedValid = false) (hp : t.pprev = some p) (hle : pindex ≤ t) :
    Disconnected s pindex t₀ p (l.mark host t p) := by
  have hsame : SameIndex (l.state.markDisconnected t p) (l.mark host t p).state := by
    unfold InvalidateLoop.mark
    rw [h.markChild_eq hbefore hp]
    exact sameIndex_foldl_insertCandidate _ _
  have hcandidate : p ∈ (l.mark host t p).state.setBlockIndexCandidates := by
    unfold InvalidateLoop.mark
    rw [h.markChild_eq hbefore hp, mem_foldl_insertCandidate]
    exact Or.inr ((mem_insertCandidate _ _ _).mpr (Or.inl rfl))
  refine ⟨(pprev_le hp).trans h.le, hsame.tip, hsame.index.trans h.index,
    hsame.failed_blocks.trans h.failed_blocks, hsame.unlinked.trans h.unlinked,
    hsame.altTree.trans h.altTree, Or.inr hcandidate, ?_, Or.inr ⟨hp, h.le, hle⟩⟩
  intro c
  rw [hsame.fields]
  simp only [markDisconnected, insertCandidate, eraseCandidate, modifyStatus, modify_fields, h.fields]
  by_cases hc : c = t
  · subst hc
    have hbelow : ¬ c ≤ p := (pprev_lt hp).not_ge
    simp [h.le, hbelow]
  · simp only [le_iff_eq_or_le_pprev hp, hc, false_or, if_false]

theorem disconnected_start (htip : s.tip = some t₀) (byWork : List CBlockIndex) :
    Disconnected s pindex t₀ t₀ ⟨s, pindex, byWork⟩ where
  le := le_refl t₀
  tip := htip
  index := rfl
  failed_blocks := rfl
  unlinked := rfl
  altTree := rfl
  candidate := Or.inl rfl
  fields c := by
    rw [if_neg]
    rintro ⟨hle, hnot⟩
    exact hnot hle
  last := Or.inl ⟨rfl, rfl⟩

/-- When nothing interrupts it, the loop ends at the parent of the block. -/
theorem invalidateLoop_completes (htip : s.tip = some t₀) (hon : pindex ≤ t₀)
    (hp : pindex.pprev = some p) (hbefore : (s.status pindex).failedValid = false)
    (hdisconnects : ∀ c, pindex ≤ c → c ≤ t₀ → host.disconnects c = true)
    (hrunning : ∀ n, host.shutdownRequested n = false) (byWork : List CBlockIndex) :
    ∃ l, invalidateLoop host pindex t₀.path 0 ⟨s, pindex, byWork⟩ = (true, l) ∧
      l.to_mark_failed = pindex ∧ Disconnected s pindex t₀ p l := by
  obtain ⟨t, h, hend⟩ := invalidateLoop_rule host pindex
    (fun t l => Disconnected s pindex t₀ t l)
    (by
      intro t q l hq hle _ h
      exact h.mark hbefore hq hle)
    (by simp [hp]) t₀ 0 ⟨s, pindex, byWork⟩ (disconnected_start htip byWork)
  generalize invalidateLoop host pindex t₀.path 0 ⟨s, pindex, byWork⟩ = result at *
  obtain ⟨completed, l⟩ := result
  rcases hend with ⟨rfl, hshutdown⟩ | ⟨-, hle, hfails⟩
  · have hoff : ¬ pindex ≤ t := by
      intro hle
      obtain ⟨n, hn⟩ := hshutdown hle
      rw [hrunning n] at hn
      cases hn
    -- the last block was disconnected, and it is the block itself
    rcases h.last with ⟨rfl, -⟩ | ⟨hparent, -, hle⟩
    · exact absurd hon hoff
    · have hlast : pindex = l.to_mark_failed := by
        rcases hle.eq_or_lt with heq | hlt
        · exact heq
        · exact absurd (le_pprev_of_lt hlt hparent) hoff
      rw [← hlast, hp] at hparent
      cases hparent
      exact ⟨l, rfl, hlast.symm, h⟩
  · rw [hdisconnects t hle h.le] at hfails
    cases hfails

/-! ### The end -/

variable {s' : ChainState} {b c : CBlockIndex}

def recordFailed (s : ChainState) (b : CBlockIndex) : ChainState :=
  { s.modifyStatus b fun status => { status with failedValid := true } with
    m_failed_blocks := s.m_failed_blocks.insert b }

theorem recordFailed_status : (s.recordFailed b).status c =
    if c = b then { s.status c with failedValid := true } else s.status c :=
  modifyStatus_status s b c fun status => { status with failedValid := true }

theorem invalidBlockFound_spec {result : BlockValidationResult} (hresult : result ≠ .BLOCK_MUTATED) :
    SameIndex (s.recordFailed b) (s.invalidBlockFound b result) := by
  unfold invalidBlockFound
  rw [if_neg hresult]
  have hrecord : SameIndex (s.recordFailed b)
      ({ s.modifyStatus b fun status => { status with failedValid := true } with
        m_failed_blocks := s.m_failed_blocks.insert b }.eraseCandidate b) :=
    ⟨rfl, rfl, rfl, rfl, rfl, rfl⟩
  refine SameIndex.trans ?_ (sameIndex_invalidChainFound _ b)
  refine hrecord.trans ?_
  cases b.pprev with
  | none => exact SameIndex.refl _
  | some p => exact sameIndex_insertCandidate _ p

theorem markFailed_off (hoff : chainContains s.tip b = false) :
    ∃ s₁, SameIndex (s.recordFailed b) s₁ ∧
      (∀ c, c ∈ s₁.setBlockIndexCandidates ↔
        (c ∈ s.setBlockIndexCandidates ∧ c ≠ b) ∨
          (c ∈ s.m_block_index ∧ (s.recordFailed b).isCandidate c = true)) ∧
      s.markFailed b = (do
        let s' ← s₁.pruneBlockIndexCandidates
        pure (true, s')) := by
  unfold markFailed
  rw [hoff]
  refine ⟨_, ?_, ?_, rfl⟩
  · have hrecord : SameIndex (s.recordFailed b)
        { (s.modifyStatus b fun status => { status with failedValid := true }).eraseCandidate b with
          m_failed_blocks := s.m_failed_blocks.insert b } := ⟨rfl, rfl, rfl, rfl, rfl, rfl⟩
    exact (hrecord.trans (sameIndex_foldl_insertCandidate _ _)).trans (sameIndex_invalidChainFound _ b)
  · intro c
    rw [invalidChainFound_candidates, mem_foldl_insertCandidate, List.mem_filter, or_comm]
    apply or_congr_left
    exact mem_eraseCandidate _ b c

theorem markFailed_completes (hoff : chainContains s.tip b = false)
    (hother : c ∈ s.setBlockIndexCandidates) (hne : c ≠ b) :
    ∃ s', s.markFailed b = .ok (true, s') ∧ SameIndex (s.recordFailed b) s' := by
  obtain ⟨s₁, hsame, hcandidates, heq⟩ := markFailed_off hoff
  have hne : s₁.setBlockIndexCandidates ≠ [] :=
    List.ne_nil_of_mem ((hcandidates c).mpr (Or.inl ⟨hother, hne⟩))
  rw [heq, prune_of_ne_nil hne]
  exact ⟨_, rfl, hsame.trans ⟨rfl, rfl, rfl, rfl, rfl, rfl⟩⟩

theorem sameIndex_of_markFailed {completed : Bool} (hoff : chainContains s.tip b = false)
    (h : s.markFailed b = .ok (completed, s')) : SameIndex (s.recordFailed b) s' := by
  obtain ⟨s₁, hsame, -, heq⟩ := markFailed_off hoff
  rw [heq] at h
  simp only [bind_eq_ok, pure_eq_ok_iff, Prod.mk.injEq] at h
  obtain ⟨s₂, hprune, -, rfl⟩ := h
  exact hsame.trans (sameIndex_prune hprune)

/-! ### All outcomes -/

/-- What `InvalidateBlock` did: `last` is the lowest block that was marked. -/
structure Invalidated (s : ChainState) (pindex last : CBlockIndex) (s' : ChainState) : Prop where
  le : pindex ≤ last
  index : s'.m_block_index = s.m_block_index
  failed_blocks : s'.m_failed_blocks = s.m_failed_blocks.insert last
  status : ∀ c, s'.status c =
    if c = last ∨ (last ≤ c ∧ chainContains s.tip c = true) then
      { s.status c with failedValid := true }
    else s.status c
  active : ∀ c, chainContains s'.tip c = true → chainContains s.tip c = true ∧ ¬ last ≤ c

theorem Disconnected.recorded (h : Disconnected s pindex t₀ t l) (htip : s.tip = some t₀)
    (hoff : chainContains l.state.tip l.to_mark_failed = false)
    (hsame : SameIndex (l.state.recordFailed l.to_mark_failed) s') :
    Invalidated s pindex l.to_mark_failed s' := by
  have hnot : ¬ l.to_mark_failed ≤ t := by
    intro hle
    rw [h.tip, chainContains_some.mpr hle] at hoff
    cases hoff
  have hstatus : ∀ c, l.state.status c =
      if c ≤ t₀ ∧ ¬ c ≤ t then { s.status c with failedValid := true } else s.status c := by
    intro c
    unfold ChainState.status
    rw [h.fields]
    split <;> rfl
  -- what is marked is the last block and the chain above it
  have habove : ∀ c, c ≠ l.to_mark_failed →
      (c ≤ t₀ ∧ ¬ c ≤ t ↔ l.to_mark_failed ≤ c ∧ chainContains s.tip c = true) := by
    intro c hne
    rw [htip, chainContains_some]
    constructor
    · rintro ⟨hle, hct⟩
      refine ⟨?_, hle⟩
      rcases h.last with ⟨rfl, -⟩ | ⟨hparent, hlast, -⟩
      · exact absurd hle hct
      · rcases le_or_le hlast hle with hle' | hle'
        · exact hle'
        · exact absurd (le_pprev_of_lt (lt_of_le_of_ne hle' hne) hparent) hct
    · rintro ⟨hle', hle⟩
      exact ⟨hle, fun hct => hnot (hle'.trans hct)⟩
  refine ⟨?_, hsame.index.trans h.index, ?_, ?_, ?_⟩
  · rcases h.last with ⟨-, hlast⟩ | ⟨-, -, hle⟩
    · exact hlast.ge
    · exact hle
  · rw [hsame.failed_blocks, recordFailed, h.failed_blocks]
  · intro c
    rw [hsame.status, recordFailed_status, hstatus]
    by_cases hc : c = l.to_mark_failed
    · rw [if_pos hc, if_pos (Or.inl hc)]
      split <;> rfl
    · simp only [habove c hc, hc, false_or, if_false]
  · intro c hc
    rw [hsame.tip] at hc
    change chainContains l.state.tip c = true at hc
    rw [h.tip, chainContains_some] at hc
    rw [htip, chainContains_some]
    exact ⟨hc.trans h.le, fun hle => hnot (hle.trans hc)⟩

/-- Nothing, or the chain is marked from a block on, which is recorded. -/
theorem invalidateBlock_cases {completed : Bool}
    (hactive : chainContains s.tip pindex = true → (s.status pindex).failedValid = false)
    (hdisconnects : ∀ c, pindex ≤ c → chainContains s.tip c = true → host.disconnects c = true)
    (h : s.invalidateBlock host pindex = .ok (completed, s')) :
    SameIndex s s' ∨ ∃ last, Invalidated s pindex last s' := by
  unfold invalidateBlock at h
  cases hp : pindex.pprev with
  | none =>
    rw [hp] at h
    cases h
  | some p =>
    simp only [hp] at h
    cases htip : s.tip with
    | none =>
      simp only [htip, Option.map_none, Option.getD_none, invalidateLoop] at h
      have hoff : chainContains s.tip pindex = false := by
        rw [htip, chainContains_none]
      have hsame := sameIndex_of_markFailed hoff h
      refine Or.inr ⟨pindex, le_refl _, hsame.index, hsame.failed_blocks, ?_, ?_⟩
      · intro c
        rw [hsame.status, recordFailed_status]
        simp [htip]
      · intro c hc
        rw [hsame.tip] at hc
        change chainContains s.tip c = true at hc
        simp [htip] at hc
    | some t₀ =>
      simp only [htip, Option.map_some, Option.getD_some] at h
      have hunmarked : pindex ≤ t₀ → (s.status pindex).failedValid = false := by
        intro hle
        exact hactive (by rw [htip, chainContains_some]; exact hle)
      obtain ⟨t, hdone, hend⟩ := invalidateLoop_rule host pindex
        (fun t l => Disconnected s pindex t₀ t l)
        (by
          intro t q l hq hle _ h
          exact h.mark (hunmarked (hle.trans h.le)) hq hle)
        (by simp [hp]) t₀ 0 ⟨s, pindex, s.candidateBlocksByWork host p⟩ (disconnected_start htip _)
      generalize invalidateLoop host pindex t₀.path 0
        ⟨s, pindex, s.candidateBlocksByWork host p⟩ = result at *
      obtain ⟨ended, l⟩ := result
      rcases hend with ⟨rfl, -⟩ | ⟨-, hle, hfails⟩
      · dsimp only at h hdone
        by_cases hcontains : chainContains l.state.tip l.to_mark_failed = true
        · -- the block is still on the chain: nothing was disconnected
          unfold markFailed at h
          rw [if_pos hcontains] at h
          cases h
          rw [hdone.tip, chainContains_some] at hcontains
          rcases hdone.last with ⟨rfl, -⟩ | ⟨hparent, -, -⟩
          · refine Or.inl ⟨hdone.index, ?_, hdone.tip.trans htip.symm, hdone.unlinked,
              hdone.failed_blocks, hdone.altTree⟩
            funext c
            rw [hdone.fields, if_neg]
            rintro ⟨hle, hnot⟩
            exact hnot hle
          · exact absurd hcontains (pprev_lt hparent).not_ge
        · rw [Bool.not_eq_true] at hcontains
          exact Or.inr ⟨_, hdone.recorded htip hcontains (sameIndex_of_markFailed hcontains h)⟩
      · have hdisc := hdisconnects t hle (by rw [htip, chainContains_some]; exact hdone.le)
        rw [hdisc] at hfails
        cases hfails

/-! ### `InvalidateBlock` on the active chain -/

/-- The block and all above it on the chain, in the same way. -/
theorem invalidateBlock_completes (htip : s.tip = some t₀) (hon : pindex ≤ t₀)
    (hgenesis : pindex.pprev ≠ none) (hbefore : (s.status pindex).failedValid = false)
    (hdisconnects : ∀ c, pindex ≤ c → c ≤ t₀ → host.disconnects c = true)
    (hrunning : ∀ n, host.shutdownRequested n = false) :
    ∃ s', s.invalidateBlock host pindex = .ok (true, s') ∧
      s'.m_block_index = s.m_block_index ∧
      s'.m_failed_blocks = s.m_failed_blocks.insert pindex ∧
      ∀ c, s'.status c = if pindex ≤ c ∧ c ≤ t₀ then { s.status c with failedValid := true }
        else s.status c := by
  obtain ⟨p, hp⟩ := Option.ne_none_iff_exists'.mp hgenesis
  obtain ⟨l, hloop, hlast, h⟩ := invalidateLoop_completes htip hon hp hbefore hdisconnects hrunning
    (s.candidateBlocksByWork host p)
  have hbelow : ¬ pindex ≤ p := (pprev_lt hp).not_ge
  have hoff : chainContains l.state.tip pindex = false := by
    rw [h.tip, ← Bool.not_eq_true, chainContains_some]
    exact hbelow
  have hcandidate : p ∈ l.state.setBlockIndexCandidates := by
    rcases h.candidate with rfl | hmem
    · exact absurd hon hbelow
    · exact hmem
  obtain ⟨s', hmark, hsame⟩ := markFailed_completes hoff hcandidate (pprev_lt hp).ne
  refine ⟨s', ?_, hsame.index.trans h.index, ?_, ?_⟩
  · unfold invalidateBlock
    rw [hp, htip]
    simp only [Option.map_some, Option.getD_some, hloop]
    rw [hlast]
    exact hmark
  · rw [hsame.failed_blocks, recordFailed, h.failed_blocks]
  · intro c
    have habove : c ≤ t₀ ∧ ¬ c ≤ p ↔ pindex ≤ c ∧ c ≤ t₀ := by
      constructor
      · rintro ⟨hle, hnot⟩
        refine ⟨?_, hle⟩
        rcases le_or_le hon hle with hle' | hle'
        · exact hle'
        · rcases hle'.eq_or_lt with rfl | hlt
          · exact le_refl _
          · exact absurd (le_pprev_of_lt hlt hp) hnot
      · rintro ⟨hle', hle⟩
        exact ⟨hle, fun hnot => hbelow (hle'.trans hnot)⟩
    have hstatus : l.state.status c = if pindex ≤ c ∧ c ≤ t₀ then
        { s.status c with failedValid := true } else s.status c := by
      unfold status
      rw [h.fields]
      simp only [habove]
      split <;> rfl
    rw [hsame.status, recordFailed_status, hstatus]
    by_cases hc : c = pindex
    · subst hc
      simp [hon]
    · rw [if_neg hc]

/-- Only the block is marked as failed, those above it as its descendants. -/
structure MarkedExactly (s' : ChainState) (t₀ pindex : CBlockIndex) : Prop where
  failedValid : ∀ c ∈ s'.m_block_index, (s'.status c).failedValid = true ↔ c = pindex
  failed_blocks : ∀ c, c ∈ s'.m_failed_blocks ↔ c = pindex
  descendants : ∀ c, pindex < c → c ≤ t₀ →
    (s'.status c).failedChild = true ∧ (s'.status c).failedValid = false

/-- **When the marks are right**: the block was the tip. -/
theorem invalidateBlock_marks_iff (host : ChainHost) (s : ChainState) (t₀ pindex : CBlockIndex)
    (htip : s.tip = some t₀) (hchain : ∀ c ≤ t₀, c ∈ s.m_block_index)
    (hclean : ∀ c ∈ s.m_block_index, s.failed c = false) (hnone : s.m_failed_blocks = [])
    (hon : pindex ≤ t₀) (hgenesis : pindex.pprev ≠ none)
    (hdisconnects : ∀ c, pindex ≤ c → c ≤ t₀ → host.disconnects c = true)
    (hrunning : ∀ n, host.shutdownRequested n = false) :
    ∃ s', s.invalidateBlock host pindex = .ok (true, s') ∧
      (MarkedExactly s' t₀ pindex ↔ pindex = t₀) := by
  have hunmarked : ∀ c ∈ s.m_block_index, (s.status c).failedValid = false := by
    intro c hc
    exact BlockStatus.failedValid_of_not_failed (hclean c hc)
  obtain ⟨s', heq, hindex, hfailed, hstatus⟩ := invalidateBlock_completes htip hon hgenesis
    (hunmarked pindex (hchain pindex hon)) hdisconnects hrunning
  refine ⟨s', heq, ?_⟩
  constructor
  · intro hmarked
    by_contra hne
    -- the tip is above the block, and it is marked as failed
    obtain ⟨-, htipMark⟩ := hmarked.descendants t₀ (lt_of_le_of_ne hon hne) (le_refl t₀)
    rw [hstatus, if_pos ⟨hon, le_refl t₀⟩] at htipMark
    cases htipMark
  · rintro rfl
    refine ⟨?_, ?_, ?_⟩
    · intro c hc
      rw [hindex] at hc
      rw [hstatus]
      split
      · next hbetween => simp [le_antisymm hbetween.2 hbetween.1]
      · next hbetween =>
        rw [hunmarked c hc]
        simp only [Bool.false_eq_true, false_iff]
        rintro rfl
        exact hbetween ⟨le_refl _, le_refl _⟩
    · intro c
      rw [hfailed, hnone]
      simp
    · intro c hlt hle
      exact absurd (hlt.trans_le hle) (lt_irrefl _)

end ChainState

namespace Regtest

def childIndex (pprev : CBlockIndex) (hash : UInt256) : CBlockIndex := ⟨⟨hash, 0⟩, pprev.path⟩

def indexGenesis : CBlockIndex := ⟨⟨0, 0⟩, []⟩

def connectedState (blocks : List CBlockIndex) (tip : CBlockIndex) : ChainState where
  m_block_index := blocks
  fields b := {
    nStatus := { valid := .BLOCK_VALID_SCRIPTS, haveData := true, haveUndo := true }
    nTx := 1
    nChainWork := 2 * (b.nHeight + 1)
    nChainTx := b.nHeight + 1
    nSequenceId := b.nHeight }
  tip := some tip
  setBlockIndexCandidates := [tip]
  m_blocks_unlinked := []
  m_failed_blocks := []
  pindexBestInvalid := none
  pindexBestHeader := some tip
  nBlockSequenceId := blocks.length
  nBlockReverseSequenceId := -1
  nLastPreciousChainwork := 0
  altTree := ⟨[], []⟩

def workingHost : ChainHost where
  disconnects _ := true
  shutdownRequested _ := false
  address b := b.nHeight
  comparePopScore _ _ := 0

def blockA : CBlockIndex := childIndex indexGenesis 1
def blockB : CBlockIndex := childIndex blockA 2

theorem tip_marked_exactly :
    ∃ s', (connectedState [indexGenesis, blockA] blockA).invalidateBlock workingHost blockA =
        .ok (true, s') ∧ ChainState.MarkedExactly s' blockA blockA := by
  have hchain : ∀ c ≤ blockA, c ∈ [indexGenesis, blockA] := by
    intro c hc
    rcases hc.eq_or_lt with rfl | hlt
    · decide
    · rw [eq_of_le_of_pprev_none (le_pprev_of_lt hlt rfl) rfl]
      decide
  obtain ⟨s', hcompletes, hmarks⟩ := ChainState.invalidateBlock_marks_iff workingHost
    (connectedState [indexGenesis, blockA] blockA) blockA blockA rfl hchain (fun _ _ => rfl) rfl
    (le_refl _) (by decide) (fun _ _ _ => rfl) (fun _ => rfl)
  exact ⟨s', hcompletes, hmarks.mpr rfl⟩

/-- Both blocks are marked as failed, none as descendant. -/
theorem descendant_marked_failed :
    ((connectedState [indexGenesis, blockA, blockB] blockB).invalidateBlock workingHost blockA).map
        (fun r => (r.1, [blockA, blockB].map fun b =>
          ((r.2.status b).failedValid, (r.2.status b).failedChild), r.2.m_failed_blocks)) =
      .ok (true, [(true, false), (true, false)], [blockA]) := by
  decide

end Regtest

end VBitcoin
