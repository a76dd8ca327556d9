import VBitcoin.AcceptHeader
import VBitcoin.InvalidateBlock

/-!
**Headers on failed branches** — `AcceptBlockHeader` refuses a header whose parent is marked,
or was not fully validated and descends from a block in `m_failed_blocks`.  `Tracked` makes
this enough: a block above a failed one is marked, or was never connected and stands above a
recorded block.  Three things break it (`Operation.Tracks`): a branch that was reorganised away
is not marked when a block below it fails, a failure of `DisconnectTip` leaves marked blocks
unrecorded, and `ResetBlockFailureFlags` forgets a recorded block while blocks above it stay
marked.
-/

namespace VBitcoin

open List CBlockIndex

inductive Operation where
  | acceptBlockHeader (ctx : HeaderContext) (block : CBlockHeader)
  | invalidateBlock (host : ChainHost) (pindex : CBlockIndex)
  /-- `ConnectTip`, which calls `InvalidBlockFound` when the block is invalid. -/
  | connectTip (pindexNew : CBlockIndex) (verdict : ChainState.ConnectVerdict)
  | disconnectTip (host : ChainHost)
  | resetBlockFailureFlags (pindex : CBlockIndex)

namespace Operation

def run (E : NodeEnv) : Operation → ChainState → Run ChainState
  | acceptBlockHeader ctx block, s => pure (E.acceptHeader ctx s block).2
  | invalidateBlock host pindex, s => do
    let (_, s) ← s.invalidateBlock host pindex
    pure s
  | connectTip pindexNew verdict, s => s.connectTip pindexNew verdict
  | disconnectTip host, s => pure ((s.disconnectTip host).getD s)
  | resetBlockFailureFlags pindex, s => s.resetBlockFailureFlags pindex

end Operation

namespace ChainState

variable {s s' : ChainState} {b c f d : CBlockIndex}

/-! ### The invariant -/

structure Tracked (s : ChainState) : Prop where
  closed : ∀ d ∈ s.m_block_index, ∀ f ≤ d, f ∈ s.m_block_index
  /-- A block above a failed one is marked, or else it was never connected and is above a
      recorded block. -/
  above : ∀ d ∈ s.m_block_index, s.failed d = false → ∀ f ≤ d, (s.status f).failedValid = true →
    s.isValid d .BLOCK_VALID_SCRIPTS = false ∧ ∃ r ∈ s.m_failed_blocks, r ≤ d
  active : ∀ t, s.tip = some t → ∀ f ≤ t, (s.status f).failedValid = false

theorem tracked_of_clean (hclosed : ∀ d ∈ s.m_block_index, ∀ f ≤ d, f ∈ s.m_block_index)
    (h : ∀ b, s.failed b = false) : s.Tracked where
  closed := hclosed
  above d _ _ f _ hf := by
    rw [BlockStatus.failedValid_of_not_failed (h f)] at hf
    cases hf
  active _ _ f _ := BlockStatus.failedValid_of_not_failed (h f)

/-- No connected block off the active chain is above `b`, unless it is marked. -/
def NoSideBranch (s : ChainState) (b : CBlockIndex) : Prop :=
  ∀ d ∈ s.m_block_index, b < d → chainContains s.tip d = false →
    s.isValid d .BLOCK_VALID_SCRIPTS = false

end ChainState

def Operation.Tracks (s : ChainState) : Operation → Prop
  | acceptBlockHeader _ _ => True
  | invalidateBlock host pindex =>
    s.NoSideBranch pindex ∧
      ∀ c, pindex ≤ c → chainContains s.tip c = true → host.disconnects c = true
  | connectTip pindexNew .connected => s.failed pindexNew = false
  | connectTip pindexNew (.invalid _) => s.NoSideBranch pindexNew
  | connectTip _ .systemError => True
  | disconnectTip _ => True
  | resetBlockFailureFlags pindex =>
    ∀ f, (s.status f).failedValid = true → ¬ f ≤ pindex → ¬ pindex ≤ f →
      ∃ r ∈ s.m_failed_blocks, r ≤ f ∧ ¬ r ≤ pindex

namespace ChainState

variable {s s' : ChainState} {b c d : CBlockIndex}

/-! ### Marking blocks -/

/-- A recorded block below each, no connected one above. -/
theorem Tracked.mark (h : s.Tracked) (M : CBlockIndex → Prop)
    (hindex : s'.m_block_index = s.m_block_index)
    (hrecorded : ∀ r ∈ s.m_failed_blocks, r ∈ s'.m_failed_blocks)
    (hmarked : ∀ c, M c → (s'.status c).failedValid = true)
    (hother : ∀ c, ¬ M c → s'.status c = s.status c)
    (hroot : ∀ m, M m → ∃ r ∈ s'.m_failed_blocks, r ≤ m)
    (hside : ∀ m d, M m → m ≤ d → ¬ M d → d ∈ s.m_block_index →
      s.isValid d .BLOCK_VALID_SCRIPTS = false)
    (hactive : ∀ t, s'.tip = some t → ∀ f ≤ t, (s'.status f).failedValid = false) :
    s'.Tracked where
  closed := by
    rw [hindex]
    exact h.closed
  active := hactive
  above d hd hfailed f hf hvalid := by
    rw [hindex] at hd
    have hnot : ¬ M d := by
      intro hM
      have := BlockStatus.failed_of_failedValid (hmarked d hM)
      rw [failed, this] at hfailed
      cases hfailed
    have hstatus := hother d hnot
    have hisValid : s'.isValid d .BLOCK_VALID_SCRIPTS = s.isValid d .BLOCK_VALID_SCRIPTS := by
      unfold isValid
      rw [hstatus]
    rw [hisValid]
    by_cases hM : M f
    · obtain ⟨r, hr, hle⟩ := hroot f hM
      exact ⟨hside f d hM hf hnot hd, r, hr, hle.trans hf⟩
    · rw [hother f hM] at hvalid
      rw [failed, hstatus] at hfailed
      obtain ⟨hscripts, r, hr, hle⟩ := h.above d hd hfailed f hf hvalid
      exact ⟨hscripts, r, hrecorded r hr, hle⟩

theorem Tracked.sameIndex (h : s.Tracked) (hsame : SameIndex s s') : s'.Tracked := by
  have hstatus := hsame.status
  refine ⟨?_, ?_, ?_⟩
  · rw [hsame.index]
    exact h.closed
  · intro d hd hfailed f hf hvalid
    unfold isValid
    unfold failed at hfailed
    rw [hstatus] at hfailed hvalid ⊢
    rw [hsame.index] at hd
    rw [hsame.failed_blocks]
    exact h.above d hd hfailed f hf hvalid
  · intro t ht f hf
    rw [hsame.tip] at ht
    rw [hstatus]
    exact h.active t ht f hf

theorem Tracked.invalidated {pindex last : CBlockIndex} (h : s.Tracked)
    (hdone : Invalidated s pindex last s') (hside : s.NoSideBranch pindex) : s'.Tracked := by
  apply h.mark (fun c => c = last ∨ (last ≤ c ∧ chainContains s.tip c = true)) hdone.index
  · intro r hr
    rw [hdone.failed_blocks]
    exact mem_insert_of_mem hr
  · intro c hc
    rw [hdone.status, if_pos hc]
  · intro c hc
    rw [hdone.status, if_neg hc]
  · intro m hm
    refine ⟨last, ?_, ?_⟩
    · rw [hdone.failed_blocks]
      exact mem_insert_self
    · rcases hm with rfl | ⟨hle, -⟩
      · exact le_refl _
      · exact hle
  · intro m d hm hle hd hmem
    rw [not_or, not_and, Bool.not_eq_true] at hd
    have hlast : last ≤ d := by
      rcases hm with rfl | ⟨hlast, -⟩
      · exact hle
      · exact hlast.trans hle
    exact hside d hmem (lt_of_le_of_lt hdone.le (lt_of_le_of_ne hlast (Ne.symm hd.1))) (hd.2 hlast)
  · intro t ht f hf
    obtain ⟨hcontains, hnot⟩ := hdone.active f (by rw [ht, chainContains_some]; exact hf)
    rw [hdone.status, if_neg]
    · cases htip : s.tip with
      | none => simp [htip] at hcontains
      | some t₀ =>
        rw [htip, chainContains_some] at hcontains
        exact h.active t₀ htip f hcontains
    · rintro (rfl | ⟨hle, -⟩)
      · exact hnot (le_refl _)
      · exact hnot hle

/-! ### `ConnectTip` -/

theorem Tracked.invalidBlockFound {result : BlockValidationResult} (h : s.Tracked)
    (hparent : b.pprev = s.tip) (hside : s.NoSideBranch b) :
    (s.invalidBlockFound b result).Tracked := by
  have hoff : ∀ c, b ≤ c → chainContains s.tip c = false := by
    intro c hle
    rw [← hparent, ← Bool.not_eq_true]
    cases hp : b.pprev with
    | none => simp
    | some p =>
      rw [chainContains_some]
      intro hcp
      exact (pprev_lt hp).not_ge (hle.trans hcp)
  by_cases hresult : result = .BLOCK_MUTATED
  · rw [ChainState.invalidBlockFound, if_pos hresult]
    exact h
  · have hsame := invalidBlockFound_spec (s := s) (b := b) hresult
    -- this is `InvalidateBlock` of a block off the chain
    refine h.invalidated (?_ : Invalidated s b b _) hside
    refine ⟨le_refl b, hsame.index, hsame.failed_blocks, ?_, ?_⟩
    · intro c
      rw [hsame.status, recordFailed_status]
      by_cases hc : c = b
      · rw [if_pos hc, if_pos (Or.inl hc)]
      · rw [if_neg hc, if_neg]
        rintro (heq | ⟨hle, hcontains⟩)
        · exact hc heq
        · rw [hoff c hle] at hcontains
          cases hcontains
    · intro c hc
      rw [hsame.tip] at hc
      refine ⟨hc, fun hle => ?_⟩
      rw [show (s.recordFailed b).tip = s.tip from rfl, hoff c hle] at hc
      cases hc

theorem Tracked.connected (h : s.Tracked) (hconnected : Connected s b s')
    (hfailed : s.failed b = false) : s'.Tracked := by
  -- nothing below the block has failed
  have hbelow : ∀ f ≤ b, (s.status f).failedValid = false := by
    intro f hf
    rcases hf.eq_or_lt with rfl | hlt
    · exact BlockStatus.failedValid_of_not_failed hfailed
    · obtain ⟨p, hp⟩ := exists_pprev_of_lt hlt
      exact h.active p (by rw [← hconnected.parent, hp]) f (le_pprev_of_lt hlt hp)
  refine ⟨?_, ?_, ?_⟩
  · rw [hconnected.index]
    exact h.closed
  · intro d hd hfailed' f hf hf'
    rw [hconnected.failedValid] at hf'
    rw [hconnected.index] at hd
    rw [hconnected.failed_blocks]
    by_cases hdb : d = b
    · rw [hbelow f (hdb ▸ hf)] at hf'
      cases hf'
    · have hstatus : s'.status d = s.status d := by
        rw [hconnected.status, if_neg hdb]
      unfold isValid
      unfold failed at hfailed'
      rw [hstatus] at hfailed' ⊢
      exact h.above d hd hfailed' f hf hf'
  · intro t ht f hf
    rw [hconnected.tip] at ht
    cases ht
    rw [hconnected.failedValid]
    exact hbelow f hf

/-! ### `ResetBlockFailureFlags` -/

theorem Tracked.cleared {x : CBlockIndex} (h : s.Tracked)
    (hcleared : Cleared (fun c => (c ∈ s.m_block_index ∧ x ≤ c) ∨ c ≤ x) s s')
    (hrecorded : ∀ f, (s.status f).failedValid = true → ¬ f ≤ x → ¬ x ≤ f →
      ∃ r ∈ s.m_failed_blocks, r ≤ f ∧ ¬ r ≤ x) : s'.Tracked := by
  have hmono : ∀ f, (s'.status f).failedValid = true →
      (s.status f).failedValid = true ∧ ¬ ((f ∈ s.m_block_index ∧ x ≤ f) ∨ f ≤ x) := by
    intro f hf
    by_cases hC : (f ∈ s.m_block_index ∧ x ≤ f) ∨ f ≤ x
    · rw [hcleared.cleared f hC] at hf
      cases hf
    · rw [hcleared.kept f hC] at hf
      exact ⟨hf, hC⟩
  refine ⟨?_, ?_, ?_⟩
  · rw [hcleared.index]
    exact h.closed
  · intro d hd hfailed f hf hvalid
    rw [hcleared.index] at hd
    obtain ⟨hvalid, hnot⟩ := hmono f hvalid
    rw [not_or] at hnot
    have habove : ¬ x ≤ f := fun hle => hnot.1 ⟨h.closed d hd f hf, hle⟩
    -- the block above is on another branch as well
    have hother : ¬ ((d ∈ s.m_block_index ∧ x ≤ d) ∨ d ≤ x) := by
      rintro (⟨-, hle⟩ | hle)
      · rcases le_or_le hf hle with hfx | hxf
        · exact hnot.2 hfx
        · exact habove hxf
      · exact hnot.2 (hf.trans hle)
    have hstatus := hcleared.kept d hother
    unfold isValid
    unfold failed at hfailed
    rw [hstatus] at hfailed ⊢
    obtain ⟨r, hr, hrf, hrx⟩ := hrecorded f hvalid hnot.2 habove
    refine ⟨(h.above d hd hfailed f hf hvalid).1, r, ?_, hrf.trans hf⟩
    rw [hcleared.failed_blocks]
    · exact hr
    · rintro (⟨-, hle⟩ | hle)
      · exact habove (hle.trans hrf)
      · exact hrx hle
  · intro t ht f hf
    rw [hcleared.tip] at ht
    rw [← Bool.not_eq_true]
    intro hvalid
    have := (hmono f hvalid).1
    rw [h.active t ht f hf] at this
    cases this

/-! ### `AcceptBlockHeader` -/

theorem Tracked.markDescendants (h : s.Tracked) (failedit : CBlockIndex) (path : List IndexEntry) :
    (markDescendants failedit path s).Tracked := by
  obtain ⟨hindex, htip, hrecorded, -, hstatus⟩ := markDescendants_spec failedit path s
  have hvalid : ∀ c, ((ChainState.markDescendants failedit path s).status c).failedValid =
      (s.status c).failedValid := by
    intro c
    rcases hstatus c with heq | heq
    · rw [heq]
    · rw [heq]
  refine ⟨?_, ?_, ?_⟩
  · rw [hindex]
    exact h.closed
  · intro d hd hfailed f hf hf'
    rw [hvalid] at hf'
    rw [hindex] at hd
    rw [hrecorded]
    rcases hstatus d with heq | heq
    · unfold isValid
      unfold failed at hfailed
      rw [heq] at hfailed ⊢
      exact h.above d hd hfailed f hf hf'
    · unfold failed at hfailed
      rw [heq] at hfailed
      simp [BlockStatus.failed] at hfailed
  · intro t ht f hf
    rw [htip] at ht
    rw [hvalid]
    exact h.active t ht f hf

variable {p new : CBlockIndex}

theorem Tracked.clean_of_accepted (h : s.Tracked) (hp : p ∈ s.m_block_index)
    (hfailed : s.failed p = false) (hancestor : s.failedAncestor p = none) :
    ∀ f ≤ p, (s.status f).failedValid = false := by
  intro f hf
  rw [← Bool.not_eq_true]
  intro hvalid
  obtain ⟨hscripts, r, hr, hle⟩ := h.above p hp hfailed f hf hvalid
  rcases failedAncestor_eq_none hancestor with hvalidated | hnone
  · rw [hscripts] at hvalidated
    cases hvalidated
  · exact hnone r hr hle

theorem clean_of_added (hparent : new.pprev = some p)
    (hadded : NodeEnv.Added s new s') (hclean : ∀ f ≤ p, (s.status f).failedValid = false) :
    ∀ f ≤ new, (s'.status f).failedValid = false := by
  intro f hf
  by_cases hnew : f = new
  · rw [hnew, hadded.status]
  · have hle := le_pprev_of_lt (lt_of_le_of_ne hf hnew) hparent
    unfold status
    rw [hadded.other f hnew]
    exact hclean f hle

theorem Tracked.added (h : s.Tracked) (hparent : new.pprev = some p)
    (hp : p ∈ s.m_block_index) (hadded : NodeEnv.Added s new s')
    (hclean : ∀ f ≤ p, (s.status f).failedValid = false) : s'.Tracked := by
  -- a failed block is an old one
  have hold : ∀ f, (s'.status f).failedValid = true → f ≠ new := by
    rintro f hf rfl
    rw [hadded.status] at hf
    cases hf
  have hstatus : ∀ c, c ≠ new → s'.status c = s.status c := by
    intro c hc
    unfold status
    rw [hadded.other c hc]
  refine ⟨?_, ?_, ?_⟩
  · intro d hd f hf
    rw [hadded.index, mem_append, mem_singleton] at hd ⊢
    rcases hd with hd | rfl
    · exact Or.inl (h.closed d hd f hf)
    · rcases (le_iff_eq_or_le_pprev hparent).mp hf with rfl | hle
      · exact Or.inr rfl
      · exact Or.inl (h.closed p hp f hle)
  · intro d hd hfailed f hf hvalid
    have hne := hold f hvalid
    rw [hadded.index, mem_append, mem_singleton] at hd
    rcases hd with hd | rfl
    · have hdnew : d ≠ new := by
        rintro rfl
        exact hadded.not_mem hd
      unfold isValid
      unfold failed at hfailed
      rw [hstatus d hdnew] at hfailed ⊢
      rw [hstatus f hne] at hvalid
      rw [hadded.failed_blocks]
      exact h.above d hd hfailed f hf hvalid
    · rw [clean_of_added hparent hadded hclean f hf] at hvalid
      cases hvalid
  · intro t ht f hf
    rw [hadded.tip] at ht
    rw [← Bool.not_eq_true]
    intro hvalid
    rw [hstatus f (hold f hvalid), h.active t ht f hf] at hvalid
    cases hvalid

end ChainState

/-! ### Runs -/

namespace NodeEnv

variable {E : NodeEnv} {s s' : ChainState}

theorem HasGenesis.of_subset (h : E.HasGenesis s)
    (hsubset : s.m_block_index ⊆ s'.m_block_index) : E.HasGenesis s' := by
  obtain ⟨g, hg, hhash⟩ := h
  exact ⟨g, hsubset hg, hhash⟩

theorem tracked_acceptHeader (ctx : HeaderContext) (block : CBlockHeader) (h : s.Tracked)
    (hgenesis : E.HasGenesis s) :
    (E.acceptHeader ctx s block).2.Tracked ∧ E.HasGenesis (E.acceptHeader ctx s block).2 := by
  rcases acceptHeader_cases ctx hgenesis block with
    ⟨altTree, heq⟩ | ⟨p, failedit, heq⟩ | ⟨p, hp, hfailed, hancestor, hadded⟩
  · rw [heq]
    exact ⟨⟨h.closed, h.above, h.active⟩, hgenesis⟩
  · rw [heq]
    refine ⟨h.markDescendants failedit p.path, hgenesis.of_subset ?_⟩
    rw [(ChainState.markDescendants_spec failedit p.path s).1]
    exact List.Subset.refl _
  · refine ⟨h.added (newIndex_pprev block p) hp hadded
      (h.clean_of_accepted hp hfailed hancestor), hgenesis.of_subset ?_⟩
    rw [hadded.index]
    exact subset_append_left _ _

/-- **Step**: an operation that keeps track keeps the invariant. -/
theorem tracked_step (s : ChainState) (op : Operation) (s' : ChainState)
    (h : s.Tracked ∧ E.HasGenesis s) (htracks : op.Tracks s) (hrun : op.run E s = .ok s') :
    s'.Tracked ∧ E.HasGenesis s' := by
  obtain ⟨h, hgenesis⟩ := h
  have same_index : s'.m_block_index = s.m_block_index → E.HasGenesis s' := by
    intro hindex
    apply hgenesis.of_subset
    rw [hindex]
    exact List.Subset.refl _
  cases op with
  | acceptBlockHeader ctx block =>
    cases hrun
    exact tracked_acceptHeader ctx block h hgenesis
  | invalidateBlock host pindex =>
    simp only [Operation.run, bind_eq_ok, Prod.exists, pure_eq_ok_iff] at hrun
    obtain ⟨completed, s₁, hinvalidate, rfl⟩ := hrun
    have hactive : chainContains s.tip pindex = true → (s.status pindex).failedValid = false := by
      intro hcontains
      cases htip : s.tip with
      | none => simp [htip] at hcontains
      | some t =>
        rw [htip, chainContains_some] at hcontains
        exact h.active t htip pindex hcontains
    rcases ChainState.invalidateBlock_cases hactive htracks.2 hinvalidate with hsame | ⟨last, hdone⟩
    · exact ⟨h.sameIndex hsame, same_index hsame.index⟩
    · exact ⟨h.invalidated hdone htracks.1, same_index hdone.index⟩
  | connectTip pindexNew verdict =>
    cases verdict with
    | connected =>
      have hconnected := ChainState.connected_of_connectTip hrun
      exact ⟨h.connected hconnected htracks, same_index hconnected.index⟩
    | invalid result =>
      simp only [Operation.run, ChainState.connectTip, bind_eq_ok, require_eq_ok, exists_const,
        pure_eq_ok_iff, beq_iff_eq] at hrun
      obtain ⟨hparent, rfl⟩ := hrun
      refine ⟨h.invalidBlockFound hparent htracks, same_index ?_⟩
      by_cases hresult : result = .BLOCK_MUTATED
      · rw [ChainState.invalidBlockFound, if_pos hresult]
      · exact (ChainState.invalidBlockFound_spec hresult).index
    | systemError =>
      simp only [Operation.run, ChainState.connectTip, bind_eq_ok, require_eq_ok, exists_const,
        pure_eq_ok_iff] at hrun
      obtain ⟨-, rfl⟩ := hrun
      exact ⟨h, hgenesis⟩
  | disconnectTip host =>
    cases hrun
    cases hdisconnect : s.disconnectTip host with
    | none => exact ⟨h, hgenesis⟩
    | some s₁ =>
      obtain ⟨t, htip, rfl⟩ := ChainState.disconnectTip_eq_some hdisconnect
      refine ⟨⟨h.closed, h.above, ?_⟩, hgenesis⟩
      intro p hp f hf
      exact h.active t htip f (hf.trans (pprev_le hp))
  | resetBlockFailureFlags pindex =>
    have hcleared := ChainState.cleared_resetBlockFailureFlags hrun
    exact ⟨h.cleared hcleared htracks, same_index hcleared.index⟩

/-- **No header is accepted on a failed branch** in a run whose operations keep track of the failed
    blocks. -/
theorem no_header_on_failed_branch (E : NodeEnv) (s₀ : ChainState) (htracked : s₀.Tracked)
    (hgenesis : E.HasGenesis s₀) (s : ChainState)
    (hreached : Reached (Operation.run E) (fun s op => op.Tracks s) s₀ s)
    (ctx : HeaderContext) (block : CBlockHeader) (new : CBlockIndex)
    (hnew : new ∈ (E.acceptHeader ctx s block).2.m_block_index) (hold : new ∉ s.m_block_index) :
    ∀ f ≤ new, ((E.acceptHeader ctx s block).2.status f).failedValid = false := by
  obtain ⟨h, hgenesis⟩ := hreached.invariant (fun s => s.Tracked ∧ E.HasGenesis s)
    ⟨htracked, hgenesis⟩ tracked_step
  rcases acceptHeader_cases ctx hgenesis block with
    ⟨altTree, heq⟩ | ⟨p, failedit, heq⟩ | ⟨p, hp, hfailed, hancestor, hadded⟩
  · rw [heq] at hnew
    exact absurd hnew hold
  · rw [heq, (ChainState.markDescendants_spec failedit p.path s).1] at hnew
    exact absurd hnew hold
  · rw [hadded.index, mem_append, mem_singleton] at hnew
    rcases hnew with hmem | rfl
    · exact absurd hmem hold
    · exact ChainState.clean_of_added (newIndex_pprev block p) hadded
        (h.clean_of_accepted hp hfailed hancestor)

end NodeEnv

namespace Regtest

def rivalBlock : CBlock :=
  { blockOn (fillerChain 1) [filler] with
    header := { (blockOn (fillerChain 1) [filler]).header with nNonce := 1 } }

def headerContext : HeaderContext where
  params := headerParams
  nAdjustedTime := 1631210000
  altAcceptBlockHeader _ _ := none
  nMinimumChainWork := 0
  savesBlock := true

def genesisState : ChainState :=
  connectedState [env.blockIndex genesis []] (env.blockIndex genesis [])

def indexOne : CBlockIndex := env.blockIndex (blockOn [genesis] [filler]) [genesis]
def indexTwo : CBlockIndex := env.blockIndex (blockOn (fillerChain 1) [filler]) (fillerChain 1)
def indexRival : CBlockIndex := env.blockIndex rivalBlock (fillerChain 1)
def headerThree : CBlockHeader := (blockOn (fillerChain 2) [filler]).header

/-- The second block gives way to its rival before the first one is invalidated. -/
def invalidatedRun : List Operation := [
  .acceptBlockHeader headerContext (blockOn [genesis] [filler]).header,
  .acceptBlockHeader headerContext (blockOn (fillerChain 1) [filler]).header,
  .acceptBlockHeader headerContext rivalBlock.header,
  .connectTip indexOne .connected,
  .connectTip indexTwo .connected,
  .disconnectTip workingHost,
  .connectTip indexRival .connected,
  .invalidateBlock workingHost indexOne]

def runOperations (ops : List Operation) : Run ChainState :=
  ops.foldlM (fun s op => op.run env s) genesisState

/-- Accepted although the first block has failed. -/
theorem header_on_failed_branch :
    (runOperations invalidatedRun).map (fun s =>
        ((s.status indexOne).failedValid, accepted (env.acceptHeader headerContext s headerThree).1,
          (env.acceptHeader headerContext s headerThree).2.m_block_index.map CBlockIndex.nHeight,
          (((env.acceptHeader headerContext s headerThree).2.status indexOne).failedValid))) =
      .ok (true, true, [0, 1, 2, 2, 3], true) := by
  decide +kernel

def firstState : ChainState := connectedState [env.blockIndex genesis [], indexOne] indexOne

def firstRival : CBlockHeader := { (blockOn [genesis] [filler]).header with nNonce := 1 }

def indexFirstRival : CBlockIndex := env.newIndex firstRival (some (env.blockIndex genesis []))

theorem firstRival_clean :
    ∃ s, (Operation.invalidateBlock workingHost indexOne).run env firstState = .ok s ∧
      (s.status indexOne).failedValid = true ∧
      indexFirstRival ∈ (env.acceptHeader headerContext s firstRival).2.m_block_index ∧
      ∀ f ≤ indexFirstRival,
        ((env.acceptHeader headerContext s firstRival).2.status f).failedValid = false := by
  have hfacts : ((Operation.invalidateBlock workingHost indexOne).run env firstState).map (fun s =>
      ((s.status indexOne).failedValid,
        decide (indexFirstRival ∈ (env.acceptHeader headerContext s firstRival).2.m_block_index),
        decide (indexFirstRival ∈ s.m_block_index))) = .ok (true, true, false) := by
    decide +kernel
  have hclosed : ∀ d ∈ firstState.m_block_index, ∀ f ≤ d, f ∈ firstState.m_block_index := by
    intro d hd f hf
    have hgenesis : ∀ g ≤ env.blockIndex genesis [], g ∈ firstState.m_block_index := by
      intro g hg
      rw [eq_of_le_of_pprev_none hg rfl]
      exact mem_cons_self
    rcases mem_cons.mp hd with rfl | hd
    · exact hgenesis f hf
    · rw [mem_singleton.mp hd] at hf
      rcases hf.eq_or_lt with rfl | hlt
      · exact mem_cons_of_mem _ mem_cons_self
      · exact hgenesis f (le_pprev_of_lt hlt rfl)
  have htracks : (Operation.invalidateBlock workingHost indexOne).Tracks firstState := by
    refine ⟨?_, fun _ _ _ => rfl⟩
    intro d hd hlt
    rcases mem_cons.mp hd with rfl | hd
    · exact absurd (nHeight_le hlt.le) (by decide)
    · rw [mem_singleton.mp hd] at hlt
      exact absurd hlt (lt_irrefl _)
  cases hrun : (Operation.invalidateBlock workingHost indexOne).run env firstState with
  | error stop =>
    rw [hrun] at hfacts
    cases hfacts
  | ok s =>
    rw [hrun] at hfacts
    simp only [Except.map, Except.ok.injEq, Prod.mk.injEq, decide_eq_true_eq,
      decide_eq_false_iff_not] at hfacts
    obtain ⟨hfailed, hnew, hold⟩ := hfacts
    exact ⟨s, rfl, hfailed, hnew, env.no_header_on_failed_branch firstState
      (ChainState.tracked_of_clean hclosed fun _ => rfl) ⟨_, mem_cons_self, rfl⟩ s
      (Reached.start.step htracks hrun) headerContext firstRival indexFirstRival hnew hold⟩

end Regtest

end VBitcoin
