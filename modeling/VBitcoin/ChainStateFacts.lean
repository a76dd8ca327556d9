import VBitcoin.ChainState

/-!
**What the operations leave alone** — the field lemmas of `ChainState`, what
`PruneBlockIndexCandidates` keeps, the rule for the loop of `InvalidateBlock`, and the
failure flags after `InvalidateBlock` and `ResetBlockFailureFlags`.
-/

namespace VBitcoin

open CBlockIndex

namespace BlockStatus

variable {status : BlockStatus}

theorem failed_of_failedValid (h : status.failedValid = true) : status.failed = true := by
  simp [failed, h]

theorem failedValid_of_not_failed (h : status.failed = false) : status.failedValid = false := by
  simp only [failed, Bool.or_eq_false_iff] at h
  exact h.1.1.1

variable {nUpTo : Validity}

theorem isValid_iff :
    status.isValid nUpTo = true ↔ status.failed = false ∧ nUpTo.level ≤ status.valid.level := by
  simp [isValid]

@[simp] theorem failedValid_raiseValidity (status : BlockStatus) (nUpTo : Validity) :
    (status.raiseValidity nUpTo).failedValid = status.failedValid := by
  unfold raiseValidity
  split
  · rfl
  · split <;> rfl

@[simp] theorem failed_raiseValidity (status : BlockStatus) (nUpTo : Validity) :
    (status.raiseValidity nUpTo).failed = status.failed := by
  unfold raiseValidity
  split
  · rfl
  · split <;> rfl

theorem haveData_raiseValidity (status : BlockStatus) (nUpTo : Validity) :
    (status.raiseValidity nUpTo).haveData = status.haveData := by
  unfold raiseValidity
  split
  · rfl
  · split <;> rfl

theorem level_le_raiseValidity (status : BlockStatus) (nUpTo : Validity) :
    status.valid.level ≤ (status.raiseValidity nUpTo).valid.level := by
  unfold raiseValidity
  split
  · exact le_refl _
  · split
    · next hlt => exact hlt.le
    · exact le_refl _

theorem le_level_raiseValidity (hfailed : status.failed = false) :
    nUpTo.level ≤ (status.raiseValidity nUpTo).valid.level := by
  unfold raiseValidity
  rw [if_neg (Bool.eq_false_iff.mp hfailed)]
  split
  · exact le_refl _
  · next hle => exact not_lt.mp hle

end BlockStatus

namespace ChainState

variable (s : ChainState) (b c : CBlockIndex)

/-! ### Fields -/

@[simp] theorem modify_fields (f : BlockFields → BlockFields) :
    (s.modify b f).fields c = if c = b then f (s.fields c) else s.fields c := rfl

variable (f : BlockStatus → BlockStatus)

@[simp] theorem modifyStatus_status :
    (s.modifyStatus b f).status c = if c = b then f (s.status c) else s.status c := by
  unfold status modifyStatus
  rw [modify_fields]
  split <;> rfl

@[simp] theorem modifyStatus_nTx : ((s.modifyStatus b f).fields c).nTx = (s.fields c).nTx := by
  unfold modifyStatus
  rw [modify_fields]
  split <;> rfl

@[simp] theorem modifyStatus_nChainTx :
    ((s.modifyStatus b f).fields c).nChainTx = (s.fields c).nChainTx := by
  unfold modifyStatus
  rw [modify_fields]
  split <;> rfl

@[simp] theorem modifyStatus_tip :
    (s.modifyStatus b f).tip = s.tip := rfl

@[simp] theorem modifyStatus_candidates :
    (s.modifyStatus b f).setBlockIndexCandidates = s.setBlockIndexCandidates := rfl

@[simp] theorem mem_insertCandidate :
    c ∈ (s.insertCandidate b).setBlockIndexCandidates ↔ c = b ∨ c ∈ s.setBlockIndexCandidates :=
  List.mem_insert_iff

@[simp] theorem mem_eraseCandidate :
    c ∈ (s.eraseCandidate b).setBlockIndexCandidates ↔
      c ∈ s.setBlockIndexCandidates ∧ c ≠ b := by
  simp [eraseCandidate]

/-- Two states that differ in the candidates and in the best and invalid blocks. -/
structure SameIndex (s s' : ChainState) : Prop where
  index : s'.m_block_index = s.m_block_index
  fields : s'.fields = s.fields
  tip : s'.tip = s.tip
  unlinked : s'.m_blocks_unlinked = s.m_blocks_unlinked
  failed_blocks : s'.m_failed_blocks = s.m_failed_blocks
  altTree : s'.altTree = s.altTree

theorem SameIndex.refl : SameIndex s s := ⟨rfl, rfl, rfl, rfl, rfl, rfl⟩

variable {s'' : ChainState} {C C' : CBlockIndex → Prop}

variable {s' : ChainState} {s} in
theorem SameIndex.trans (h : SameIndex s s') (h' : SameIndex s' s'') :
    SameIndex s s'' where
  index := h'.index.trans h.index
  fields := h'.fields.trans h.fields
  tip := h'.tip.trans h.tip
  unlinked := h'.unlinked.trans h.unlinked
  failed_blocks := h'.failed_blocks.trans h.failed_blocks
  altTree := h'.altTree.trans h.altTree

variable {s} in
theorem SameIndex.status (h : SameIndex s s') : s'.status = s.status := by
  funext b
  unfold ChainState.status
  rw [h.fields]

variable {s} in
theorem SameIndex.haveTxsDownloaded (h : SameIndex s s') :
    s'.haveTxsDownloaded = s.haveTxsDownloaded := by
  funext b
  unfold ChainState.haveTxsDownloaded
  rw [h.fields]

theorem sameIndex_insertCandidate : SameIndex s (s.insertCandidate b) := ⟨rfl, rfl, rfl, rfl, rfl, rfl⟩

theorem sameIndex_eraseCandidate : SameIndex s (s.eraseCandidate b) := ⟨rfl, rfl, rfl, rfl, rfl, rfl⟩

theorem sameIndex_foldl_insertCandidate (bs : List CBlockIndex) :
    SameIndex s (bs.foldl insertCandidate s) := by
  induction bs generalizing s with
  | nil => exact SameIndex.refl s
  | cons b bs ih => exact (sameIndex_insertCandidate s b).trans (ih (s.insertCandidate b))

theorem mem_foldl_insertCandidate (bs : List CBlockIndex) :
    c ∈ (bs.foldl insertCandidate s).setBlockIndexCandidates ↔
      c ∈ bs ∨ c ∈ s.setBlockIndexCandidates := by
  induction bs generalizing s with
  | nil => simp
  | cons b bs ih =>
    rw [List.foldl_cons, ih, mem_insertCandidate, List.mem_cons]
    tauto

theorem sameIndex_invalidChainFound : SameIndex s (s.invalidChainFound b) := by
  unfold invalidChainFound
  split
  · exact ⟨rfl, rfl, rfl, rfl, rfl, rfl⟩
  · exact SameIndex.refl s

@[simp] theorem invalidChainFound_candidates :
    (s.invalidChainFound b).setBlockIndexCandidates = s.setBlockIndexCandidates := by
  unfold invalidChainFound
  split <;> rfl

/-! ### Pruning -/

variable {s b c}

theorem mem_keptCandidates : b ∈ s.keptCandidates ↔
    b ∈ s.setBlockIndexCandidates ∧ ∀ el ∈ s.setBlockIndexCandidates, el.pprev ≠ some b := by
  simp [keptCandidates]

theorem pruneBlockIndexCandidates_eq_ok :
    s.pruneBlockIndexCandidates = .ok s' ↔
      s.keptCandidates ≠ [] ∧ s' = { s with setBlockIndexCandidates := s.keptCandidates } := by
  unfold pruneBlockIndexCandidates
  simp only [bind_eq_ok, require_eq_ok, exists_const, pure_eq_ok_iff, Bool.not_eq_true',
    List.isEmpty_eq_false_iff]
  exact and_congr_right fun _ => eq_comm

theorem sameIndex_prune (h : s.pruneBlockIndexCandidates = .ok s') : SameIndex s s' := by
  obtain ⟨-, rfl⟩ := pruneBlockIndexCandidates_eq_ok.mp h
  exact ⟨rfl, rfl, rfl, rfl, rfl, rfl⟩

theorem keptCandidates_ne_nil (h : s.setBlockIndexCandidates ≠ []) : s.keptCandidates ≠ [] := by
  obtain ⟨first, hfirst⟩ := List.exists_mem_of_ne_nil _ h
  obtain ⟨top, htop, hmax⟩ := s.setBlockIndexCandidates.toFinset.exists_max_image
    CBlockIndex.nHeight ⟨first, List.mem_toFinset.mpr hfirst⟩
  have hkept : top ∈ s.keptCandidates := by
    apply mem_keptCandidates.mpr
    refine ⟨List.mem_toFinset.mp htop, ?_⟩
    intro el hel hparent
    have hheight := hmax el (List.mem_toFinset.mpr hel)
    rw [nHeight_pprev hparent] at hheight
    omega
  exact List.ne_nil_of_mem hkept

theorem prune_of_ne_nil (h : s.setBlockIndexCandidates ≠ []) :
    s.pruneBlockIndexCandidates = .ok { s with setBlockIndexCandidates := s.keptCandidates } :=
  pruneBlockIndexCandidates_eq_ok.mpr ⟨keptCandidates_ne_nil h, rfl⟩

/-! ### Moving the tip -/

theorem disconnectTip_eq_some {host : ChainHost} (h : s.disconnectTip host = some s') :
    ∃ t, s.tip = some t ∧ s' = { s with tip := t.pprev } := by
  unfold disconnectTip at h
  cases htip : s.tip with
  | none =>
    rw [htip] at h
    cases h
  | some t =>
    simp only [htip, Option.ite_none_right_eq_some, Option.some.injEq] at h
    exact ⟨t, rfl, h.2.symm⟩

/-- What `ConnectTip` did when it connected a block. -/
structure Connected (s : ChainState) (b : CBlockIndex) (s' : ChainState) : Prop where
  parent : b.pprev = s.tip
  tip : s'.tip = some b
  index : s'.m_block_index = s.m_block_index
  candidates : s'.setBlockIndexCandidates = s.setBlockIndexCandidates
  unlinked : s'.m_blocks_unlinked = s.m_blocks_unlinked
  failed_blocks : s'.m_failed_blocks = s.m_failed_blocks
  nChainTx : ∀ c, (s'.fields c).nChainTx = (s.fields c).nChainTx
  status : ∀ c, s'.status c =
    if c = b then { s.status c with haveUndo := true }.raiseValidity .BLOCK_VALID_SCRIPTS
    else s.status c

theorem connected_of_connectTip (h : s.connectTip b .connected = .ok s') : Connected s b s' := by
  simp only [connectTip, bind_eq_ok, require_eq_ok, exists_const, pure_eq_ok_iff, beq_iff_eq] at h
  obtain ⟨hparent, rfl⟩ := h
  let raise (status : BlockStatus) :=
    { status with haveUndo := true }.raiseValidity .BLOCK_VALID_SCRIPTS
  exact ⟨hparent, rfl, rfl, rfl, rfl, rfl,
    fun c => modifyStatus_nChainTx s b c raise, fun c => modifyStatus_status s b c raise⟩

theorem Connected.failedValid (h : Connected s b s') (c : CBlockIndex) :
    (s'.status c).failedValid = (s.status c).failedValid := by
  rw [h.status]
  split
  · exact BlockStatus.failedValid_raiseValidity _ _
  · rfl

/-! ### The loop of `InvalidateBlock` -/

/-- It ends off the chain, at shutdown, or when `DisconnectTip` fails. -/
theorem invalidateLoop_rule (host : ChainHost) (pindex : CBlockIndex)
    (P : CBlockIndex → InvalidateLoop → Prop)
    (step : ∀ t p l, t.pprev = some p → pindex ≤ t → host.disconnects t = true → P t l →
      P p (l.mark host t p))
    (hgenesis : pindex.pprev ≠ none) (t : CBlockIndex) (turn : Nat) (l : InvalidateLoop)
    (h : P t l) :
    ∃ t', P t' (invalidateLoop host pindex t.path turn l).2 ∧
      (((invalidateLoop host pindex t.path turn l).1 = true ∧
          (pindex ≤ t' → ∃ n, host.shutdownRequested n = true)) ∨
        ((invalidateLoop host pindex t.path turn l).1 = false ∧ pindex ≤ t' ∧
          host.disconnects t' = false)) := by
  induction t using induction_pprev generalizing turn l with
  | step t ih =>
    obtain ⟨entry, ancestors⟩ := t
    cases ancestors with
    | nil =>
      refine ⟨⟨entry, []⟩, h, Or.inl ⟨rfl, ?_⟩⟩
      intro hle
      have heq := eq_of_le_of_pprev_none hle rfl
      exact absurd (by rw [heq]; rfl) hgenesis
    | cons parent rest =>
      simp only [CBlockIndex.path, invalidateLoop]
      split
      · next hshutdown => exact ⟨⟨entry, parent :: rest⟩, h, Or.inl ⟨rfl, fun _ => ⟨turn, hshutdown⟩⟩⟩
      · split
        · next hoff =>
          refine ⟨⟨entry, parent :: rest⟩, h, Or.inl ⟨rfl, fun hle => ?_⟩⟩
          simp [chainContains_some.mpr hle] at hoff
        · next hon =>
          have hle : pindex ≤ ⟨entry, parent :: rest⟩ := by
            simpa using hon
          split
          · next hfails => exact ⟨⟨entry, parent :: rest⟩, h, Or.inr ⟨rfl, hle, by simpa using hfails⟩⟩
          · next hdisconnects =>
            exact ih ⟨parent, rest⟩ rfl (turn + 1) _
              (step _ _ l rfl hle (by simpa using hdisconnects) h)

/-! ### `ResetBlockFailureFlags` -/

@[simp] theorem failed_clearFailed (status : BlockStatus) : (clearFailed status).failed = false := rfl

theorem clearFailed_of_not_failed {status : BlockStatus} (h : status.failed = false) :
    clearFailed status = status := by
  simp only [BlockStatus.failed, Bool.or_eq_false_iff] at h
  obtain ⟨⟨⟨hvalid, hchild⟩, hpop⟩, hpopChild⟩ := h
  cases status
  simp_all [clearFailed]

/-- The flags in `C` are cleared, and at most these blocks forgotten. -/
structure Cleared (C : CBlockIndex → Prop) (s s' : ChainState) : Prop where
  index : s'.m_block_index = s.m_block_index
  tip : s'.tip = s.tip
  unlinked : s'.m_blocks_unlinked = s.m_blocks_unlinked
  altTree : s'.altTree = s.altTree
  nTx : ∀ c, (s'.fields c).nTx = (s.fields c).nTx
  nChainTx : ∀ c, (s'.fields c).nChainTx = (s.fields c).nChainTx
  cleared : ∀ c, C c → s'.status c = clearFailed (s.status c)
  kept : ∀ c, ¬ C c → s'.status c = s.status c
  failed_blocks : ∀ r, ¬ C r → (r ∈ s'.m_failed_blocks ↔ r ∈ s.m_failed_blocks)

theorem Cleared.trans (h : Cleared C s s')
    (h' : Cleared C' s' s'') : Cleared (fun c => C c ∨ C' c) s s'' where
  index := h'.index.trans h.index
  tip := h'.tip.trans h.tip
  unlinked := h'.unlinked.trans h.unlinked
  altTree := h'.altTree.trans h.altTree
  nTx c := (h'.nTx c).trans (h.nTx c)
  nChainTx c := (h'.nChainTx c).trans (h.nChainTx c)
  cleared c hc := by
    by_cases hC : C c
    · by_cases hC' : C' c
      · rw [h'.cleared c hC', h.cleared c hC]
        rfl
      · rw [h'.kept c hC', h.cleared c hC]
    · rw [h'.cleared c (hc.resolve_left hC), h.kept c hC]
  kept c hc := by
    rw [not_or] at hc
    rw [h'.kept c hc.2, h.kept c hc.1]
  failed_blocks r hr := by
    rw [not_or] at hr
    rw [h'.failed_blocks r hr.2, h.failed_blocks r hr.1]

theorem Cleared.congr (h : Cleared C s s') (hiff : ∀ c, C c ↔ C' c) : Cleared C' s s' := by
  have heq : C = C' := funext fun c => propext (hiff c)
  rw [← heq]
  exact h

theorem SameIndex.cleared {s' : ChainState} (h : SameIndex s s') : Cleared (fun _ => False) s s' where
  index := h.index
  tip := h.tip
  unlinked := h.unlinked
  altTree := h.altTree
  nTx c := by rw [h.fields]
  nChainTx c := by rw [h.fields]
  cleared _ hc := hc.elim
  kept c _ := congrFun h.status c
  failed_blocks r _ := by rw [h.failed_blocks]

theorem cleared_of_not_failed (h : s.failed b = false) : Cleared (· = b) s s where
  index := rfl
  tip := rfl
  unlinked := rfl
  altTree := rfl
  nTx _ := rfl
  nChainTx _ := rfl
  cleared c hc := by
    rw [hc]
    exact (clearFailed_of_not_failed h).symm
  kept _ _ := rfl
  failed_blocks _ _ := Iff.rfl

theorem cleared_modifyStatus :
    Cleared (· = b) s { s.modifyStatus b clearFailed with
      m_failed_blocks := s.m_failed_blocks.filter (· ≠ b) } where
  index := rfl
  tip := rfl
  unlinked := rfl
  altTree := rfl
  nTx c := modifyStatus_nTx s b c clearFailed
  nChainTx c := modifyStatus_nChainTx s b c clearFailed
  cleared c hc := (modifyStatus_status s b c clearFailed).trans (if_pos hc)
  kept c hc := (modifyStatus_status s b c clearFailed).trans (if_neg hc)
  failed_blocks r hr := by simp [hr]

theorem cleared_resetAncestor : Cleared (· = b) s (s.resetAncestor b) := by
  unfold resetAncestor
  split
  · exact cleared_modifyStatus
  · next hfailed => exact cleared_of_not_failed (by simpa using hfailed)

variable (x : CBlockIndex)

theorem cleared_resetAncestors (s : ChainState) : Cleared (· ≤ x) s (resetAncestors x.path s) := by
  induction x using induction_pprev generalizing s with
  | step x ih =>
    cases hp : x.pprev with
    | none =>
      have hpath : x.path = [x.entry] := by
        rw [CBlockIndex.path, pprev_eq_none.mp hp]
      have hx : (⟨x.entry, []⟩ : CBlockIndex) = x := path_injective hpath.symm
      rw [hpath, resetAncestors, resetAncestors, hx]
      apply cleared_resetAncestor.congr
      intro c
      exact ⟨fun h => h.le, fun h => eq_of_le_of_pprev_none h hp⟩
    | some p =>
      have hpath : x.path = x.entry :: p.path := by
        rw [CBlockIndex.path, pprev_eq_some.mp hp]
      have hx : (⟨x.entry, p.path⟩ : CBlockIndex) = x := path_injective hpath.symm
      rw [hpath, resetAncestors, hx]
      apply (cleared_resetAncestor.trans (ih p hp (s.resetAncestor x))).congr
      intro c
      exact (le_iff_eq_or_le_pprev hp).symm

theorem cleared_resetDescendant : Cleared (· = b) s (s.resetDescendant b) := by
  unfold resetDescendant
  have hsame : ∀ s₁ : ChainState, SameIndex s₁
      (if s₁.isCandidate b then s₁.insertCandidate b else s₁) := by
    intro s₁
    split
    · exact sameIndex_insertCandidate s₁ b
    · exact SameIndex.refl s₁
  have hsame' : ∀ s₁ : ChainState, SameIndex s₁
      (if s₁.pindexBestInvalid = some b then { s₁ with pindexBestInvalid := none } else s₁) := by
    intro s₁
    split
    · exact ⟨rfl, rfl, rfl, rfl, rfl, rfl⟩
    · exact SameIndex.refl s₁
  have h := (hsame (s.modifyStatus b clearFailed)).trans (hsame' _)
  have hcleared := @cleared_modifyStatus s b
  exact ⟨h.index, h.tip, h.unlinked, h.altTree,
    fun c => (congrArg (fun f : BlockFields => f.nTx) (congrFun h.fields c)).trans (hcleared.nTx c),
    fun c => (congrArg BlockFields.nChainTx (congrFun h.fields c)).trans (hcleared.nChainTx c),
    fun c hc => (congrFun h.status c).trans (hcleared.cleared c hc),
    fun c hc => (congrFun h.status c).trans (hcleared.kept c hc),
    fun r hr => by
      simp only [h.failed_blocks]
      exact hcleared.failed_blocks r hr⟩

theorem cleared_resetIfDescendant :
    Cleared (fun c => c = b ∧ x ≤ c) s (resetIfDescendant x s b) := by
  unfold resetIfDescendant
  by_cases hle : x ≤ b
  · have hiff : ∀ c, c = b ↔ c = b ∧ x ≤ c := by
      intro c
      constructor
      · rintro rfl
        exact ⟨rfl, hle⟩
      · exact And.left
    rw [getAncestor_eq_some_iff.mpr hle]
    split
    · exact cleared_resetDescendant.congr hiff
    · next hvalid =>
      have hvalid : s.isValid b .BLOCK_VALID_TRANSACTIONS = true := by simpa using hvalid
      exact (cleared_of_not_failed (BlockStatus.isValid_iff.mp hvalid).1).congr hiff
  · have hnot : ¬ b.getAncestor x.nHeight = some x := by
      rw [getAncestor_eq_some_iff]
      exact hle
    rw [if_neg (by simp [hnot])]
    apply (SameIndex.refl s).cleared.congr
    intro c
    constructor
    · exact False.elim
    · rintro ⟨rfl, h⟩
      exact hle h

theorem cleared_foldl_resetIfDescendant (bs : List CBlockIndex) :
    Cleared (fun c => c ∈ bs ∧ x ≤ c) s (bs.foldl (resetIfDescendant x) s) := by
  induction bs generalizing s with
  | nil =>
    apply (SameIndex.refl s).cleared.congr
    simp
  | cons b bs ih =>
    apply ((cleared_resetIfDescendant x).trans ih).congr
    intro c
    rw [List.mem_cons, or_and_right]

/-- **What is cleared**: the ancestors and the descendants of the block. -/
theorem cleared_resetBlockFailureFlags (h : s.resetBlockFailureFlags b = .ok s') :
    Cleared (fun c => (c ∈ s.m_block_index ∧ b ≤ c) ∨ c ≤ b) s s' := by
  unfold resetBlockFailureFlags at h
  simp only [bind_eq_ok, pure_eq_ok_iff] at h
  obtain ⟨s₁, hprune, rfl⟩ := h
  have hdescendants : Cleared _ s (s.resetDescendants b) :=
    cleared_foldl_resetIfDescendant b s.m_block_index
  apply ((hdescendants.trans (sameIndex_prune hprune).cleared).trans
    (cleared_resetAncestors b s₁)).congr
  intro c
  rw [or_false]

end ChainState

/-! ### `ReceivedBlockTransactions` -/

namespace NodeEnv

open ChainState

theorem linkBlock_status (s : ChainState) (b c : CBlockIndex) :
    (linkBlock s b).status c = s.status c := by
  unfold status linkBlock insertCandidate
  simp only [modify_fields]
  split <;> rfl

theorem linkBlock_nTx (s : ChainState) (b c : CBlockIndex) :
    ((linkBlock s b).fields c).nTx = (s.fields c).nTx := by
  unfold linkBlock insertCandidate
  simp only [modify_fields]
  split <;> rfl

theorem linkBlock_nChainTx (s : ChainState) (b c : CBlockIndex) :
    ((linkBlock s b).fields c).nChainTx =
      if c = b then ((b.pprev.map fun pprev => (s.fields pprev).nChainTx).getD 0 +
        (s.fields b).nTx) % 2 ^ 32
      else (s.fields c).nChainTx := by
  unfold linkBlock insertCandidate
  simp only [modify_fields]
  split <;> rfl

theorem linkBlocks_frame (turns : Nat) (queue : List CBlockIndex) (s : ChainState) :
    (linkBlocks turns queue s).m_block_index = s.m_block_index ∧
      (linkBlocks turns queue s).tip = s.tip ∧
      (linkBlocks turns queue s).altTree = s.altTree ∧
      (linkBlocks turns queue s).m_failed_blocks = s.m_failed_blocks ∧
      ∀ c, (linkBlocks turns queue s).status c = s.status c := by
  induction turns generalizing queue s with
  | zero => exact ⟨rfl, rfl, rfl, rfl, fun _ => rfl⟩
  | succ turns ih =>
    cases queue with
    | nil => exact ⟨rfl, rfl, rfl, rfl, fun _ => rfl⟩
    | cons pindex queue =>
      obtain ⟨hindex, htip, halt, hfailed, hstatus⟩ := ih (queue ++
        (s.m_blocks_unlinked.filter fun waiting => waiting.1 = pindex).map Prod.snd)
        (linkBlock s pindex)
      exact ⟨hindex, htip, halt, hfailed, fun c => (hstatus c).trans (linkBlock_status s pindex c)⟩

variable {E : NodeEnv}

theorem receivedBlockTransactions_frame {s s' : ChainState} {block : CBlock}
    {pindexNew : CBlockIndex} (h : E.receivedBlockTransactions s block pindexNew = .ok s') :
    s'.m_block_index = s.m_block_index ∧ s'.tip = s.tip ∧ s'.altTree = s.altTree ∧
      s'.m_failed_blocks = s.m_failed_blocks ∧
      ∀ c, c ≠ pindexNew → s'.status c = s.status c := by
  unfold receivedBlockTransactions at h
  dsimp only at h
  have hsame := sameIndex_prune h
  generalize hs₁ : E.recordData s block pindexNew = s₁ at hsame
  have hstatus : ∀ c, c ≠ pindexNew → s₁.status c = s.status c := by
    intro c hc
    rw [← hs₁]
    unfold status recordData
    rw [modify_fields, if_neg hc]
  have hframe := linkBlocks_frame (s₁.m_blocks_unlinked.length + 1) [pindexNew] s₁
  have hrest : s₁.m_block_index = s.m_block_index ∧ s₁.tip = s.tip ∧ s₁.altTree = s.altTree ∧
      s₁.m_failed_blocks = s.m_failed_blocks := by
    rw [← hs₁]
    exact ⟨rfl, rfl, rfl, rfl⟩
  obtain ⟨hindex, htip, halt, hfailed⟩ := hrest
  rw [hsame.index, hsame.tip, hsame.altTree, hsame.failed_blocks, hsame.status]
  split
  · exact ⟨hframe.1.trans hindex, hframe.2.1.trans htip, hframe.2.2.1.trans halt,
      hframe.2.2.2.1.trans hfailed, fun c hc => (hframe.2.2.2.2 c).trans (hstatus c hc)⟩
  · split
    · exact ⟨hframe.1.trans hindex, hframe.2.1.trans htip, hframe.2.2.1.trans halt,
        hframe.2.2.2.1.trans hfailed, fun c hc => (hframe.2.2.2.2 c).trans (hstatus c hc)⟩
    · split
      · exact ⟨hindex, htip, halt, hfailed, hstatus⟩
      · exact ⟨hindex, htip, halt, hfailed, hstatus⟩

end NodeEnv

end VBitcoin
