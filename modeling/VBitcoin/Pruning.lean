import VBitcoin.BlockFiles
import VBitcoin.BlockTree

/-!
**Pruning of block files** (`FindFilesToPrune`, `FindFilesToPruneManual`, `PruneOneBlockFile`
in `validation.cpp`) — a file may go when its highest block is not among the last
`MIN_BLOCKS_TO_KEEP`.  The limit is a difference of `unsigned int`s, which wraps around on a
shorter chain: there only the height of a manual request limits it.
-/

namespace VBitcoin

open List

/-! ### The code -/

def BLOCKFILE_CHUNK_SIZE : Nat := 0x1000000
def UNDOFILE_CHUNK_SIZE : Nat := 0x100000

/-- The fields of a block index entry that say where the block is stored. -/
structure StoredBlock where
  pindex : CBlockIndex
  nFile : Nat := 0
  nDataPos : Nat := 0
  nUndoPos : Nat := 0
  haveData : Bool := false
  haveUndo : Bool := false
  deriving DecidableEq, Repr

structure BlockManager where
  files : BlockFiles := {}
  m_block_index : List StoredBlock := []
  m_blocks_unlinked : List (Option CBlockIndex × CBlockIndex) := []
  deriving DecidableEq, Repr

def StoredBlock.cleared (entry : StoredBlock) : StoredBlock := { pindex := entry.pindex }

namespace BlockManager

def pruneOneBlockFile (s : BlockManager) (fileNumber : Nat) : Run BlockManager := do
  let files ← s.files.setNull fileNumber
  pure {
    files
    m_block_index := s.m_block_index.map fun entry =>
      if entry.nFile = fileNumber then entry.cleared else entry
    m_blocks_unlinked := s.m_blocks_unlinked.filter fun unlinked =>
      !s.m_block_index.any fun entry =>
        entry.nFile = fileNumber ∧ unlinked = (entry.pindex.pprev, entry.pindex) }

/-- The limit of both functions, a difference of `unsigned int`s. -/
def lastBlockWeCanPrune (tip : CBlockIndex) : Nat :=
  (tip.nHeight + 2 ^ 32 - MIN_BLOCKS_TO_KEEP) % 2 ^ 32

def pruneManualStep (nLastBlockWeCanPrune : Nat) (x : List Nat × BlockManager) (fileNumber : Nat) :
    Run (List Nat × BlockManager) :=
  let info := x.2.files.info fileNumber
  if info.nSize = 0 ∨ nLastBlockWeCanPrune < info.nHeightLast then pure x
  else do
    let s ← x.2.pruneOneBlockFile fileNumber
    pure (x.1 ++ [fileNumber], s)

def findFilesToPruneManual (s : BlockManager) (tip : Option CBlockIndex)
    (nManualPruneHeight : Int32) : Run (List Nat × BlockManager) := do
  require (s.files.fPruneMode && decide (0 < nManualPruneHeight))
    (.assertion "fPruneMode && nManualPruneHeight > 0")
  match tip with
  | none => pure ([], s)
  | some tip =>
    let nLastBlockWeCanPrune :=
      min nManualPruneHeight.toUInt32.toNat (lastBlockWeCanPrune tip)
    (List.range s.files.nLastBlockFile).foldlM (pruneManualStep nLastBlockWeCanPrune) ([], s)

/-- `CalculateCurrentUsage`; the sum for one file is an `unsigned int`. -/
def calculateCurrentUsage (s : BlockManager) : Nat :=
  s.files.vinfoBlockFile.foldl
    (fun retval file => (retval + (file.nSize + file.nUndoSize) % 2 ^ 32) % 2 ^ 64) 0

def pruneLoop (nLastBlockWeCanPrune nBuffer nPruneTarget : Nat) :
    List Nat → Nat → List Nat × BlockManager → Run (List Nat × BlockManager)
  | [], _, x => pure x
  | fileNumber :: rest, nCurrentUsage, x =>
    let info := x.2.files.info fileNumber
    let nBytesToPrune := (info.nSize + info.nUndoSize) % 2 ^ 32
    if info.nSize = 0 then pruneLoop nLastBlockWeCanPrune nBuffer nPruneTarget rest nCurrentUsage x
    else if (nCurrentUsage + nBuffer) % 2 ^ 64 < nPruneTarget then pure x
    else if nLastBlockWeCanPrune < info.nHeightLast then
      pruneLoop nLastBlockWeCanPrune nBuffer nPruneTarget rest nCurrentUsage x
    else do
      let s ← x.2.pruneOneBlockFile fileNumber
      pruneLoop nLastBlockWeCanPrune nBuffer nPruneTarget rest
        ((nCurrentUsage + 2 ^ 64 - nBytesToPrune) % 2 ^ 64) (x.1 ++ [fileNumber], s)

def findFilesToPrune (s : BlockManager) (tip : Option CBlockIndex)
    (nPruneAfterHeight nPruneTarget : Nat) (isInitialBlockDownload : Bool) :
    Run (List Nat × BlockManager) :=
  match tip with
  | none => pure ([], s)
  | some tip =>
    if nPruneTarget = 0 then pure ([], s)
    else if tip.nHeight ≤ nPruneAfterHeight then pure ([], s)
    else
      let nCurrentUsage := s.calculateCurrentUsage
      let nBuffer := BLOCKFILE_CHUNK_SIZE + UNDOFILE_CHUNK_SIZE
      if nPruneTarget ≤ (nCurrentUsage + nBuffer) % 2 ^ 64 then
        let nBuffer :=
          if isInitialBlockDownload then (nBuffer + nPruneTarget / 10) % 2 ^ 64 else nBuffer
        pruneLoop (lastBlockWeCanPrune tip) nBuffer nPruneTarget (List.range s.files.nLastBlockFile)
          nCurrentUsage ([], s)
      else pure ([], s)

end BlockManager

inductive Network where
  | MAIN | TESTNET | REGTEST | DETREGTEST
  deriving DecidableEq, Repr

def Network.pruneAfterHeight : Network → Nat
  | MAIN => 100000
  | TESTNET | REGTEST | DETREGTEST => 1000

/-! ### What pruning does -/

namespace BlockManager

structure Pruned (s : BlockManager) (pruned : List Nat) (s' : BlockManager) : Prop where
  info : ∀ n, s'.files.info n = if n ∈ pruned then {} else s.files.info n
  index : s'.m_block_index = s.m_block_index.map fun entry =>
    if entry.nFile ∈ pruned then entry.cleared else entry

theorem Pruned.nil (s : BlockManager) : Pruned s [] s where
  info := by simp
  index := by simp

variable {s s₁ : BlockManager} {pruned : List Nat}

theorem Pruned.pruneOneBlockFile (h : Pruned s pruned s₁)
    {fileNumber : Nat} (hsize : (s₁.files.info fileNumber).nSize ≠ 0) :
    ∃ s', s₁.pruneOneBlockFile fileNumber = .ok s' ∧ Pruned s (pruned ++ [fileNumber]) s' := by
  have hlt : fileNumber < s₁.files.vinfoBlockFile.length := by
    by_contra hge
    exact hsize (by rw [BlockFiles.info, getD_eq_default _ _ (by omega)])
  have hnull : s₁.files.setNull fileNumber = .ok (BlockFiles.setDirty
      { s₁.files with vinfoBlockFile := s₁.files.vinfoBlockFile.set fileNumber {} } fileNumber) :=
    if_pos hlt
  rw [BlockManager.pruneOneBlockFile, hnull, ok_bind]
  refine ⟨_, rfl, ?_, ?_⟩
  · intro n
    rw [(setNull_eq_ok hnull).2, h.info]
    by_cases hn : n = fileNumber <;> simp [hn]
  · simp only [h.index, map_map]
    apply map_congr_left
    intro entry _
    -- an entry that was cleared before stays as it is
    by_cases hmem : entry.nFile ∈ pruned
    · simp [hmem, StoredBlock.cleared]
    · simp [hmem]

/-- The file is in use, and no block in it is above the limit. -/
def Prunable (s : BlockManager) (limit n : Nat) : Prop :=
  (s.files.info n).nSize ≠ 0 ∧ (s.files.info n).nHeightLast ≤ limit

theorem Pruned.prunable_iff (h : Pruned s pruned s₁)
    {n : Nat} (hn : n ∉ pruned) (limit : Nat) : s₁.Prunable limit n ↔ s.Prunable limit n := by
  rw [Prunable, Prunable, h.info, if_neg hn]

/-- The loop of `FindFilesToPruneManual` prunes every file that it may. -/
theorem foldlM_pruneManualStep (s : BlockManager) (limit : Nat) :
    ∀ (files : List Nat) (x : List Nat × BlockManager), Pruned s x.1 x.2 → (x.1 ++ files).Nodup →
      ∃ y, files.foldlM (pruneManualStep limit) x = .ok y ∧ Pruned s y.1 y.2 ∧
        ∀ n, n ∈ y.1 ↔ n ∈ x.1 ∨ n ∈ files ∧ s.Prunable limit n := by
  intro files
  induction files with
  | nil =>
    intro x h _
    exact ⟨x, rfl, h, by simp⟩
  | cons fileNumber files ih =>
    intro x h hnodup
    have hnew : fileNumber ∉ x.1 := by
      intro hmem
      exact (nodup_append.mp hnodup).2.2 _ hmem _ mem_cons_self rfl
    rw [foldlM_cons]
    by_cases hprunable : s.Prunable limit fileNumber
    · obtain ⟨hsize, hheight⟩ := (h.prunable_iff hnew limit).mpr hprunable
      obtain ⟨s', hrun, h'⟩ := h.pruneOneBlockFile hsize
      obtain ⟨y, hloop, hy, hmem⟩ := ih (x.1 ++ [fileNumber], s') h' (by simpa using hnodup)
      refine ⟨y, ?_, hy, ?_⟩
      · rw [pruneManualStep, if_neg (by omega), hrun]
        exact hloop
      · intro n
        rw [hmem n]
        by_cases hn : n = fileNumber <;> simp [hn, hprunable]
    · have hskip := mt (h.prunable_iff hnew limit).mp hprunable
      obtain ⟨y, hloop, hy, hmem⟩ := ih x h (hnodup.sublist (by simp))
      refine ⟨y, ?_, hy, ?_⟩
      · rw [pruneManualStep, if_pos (by unfold Prunable at hskip; omega)]
        exact hloop
      · intro n
        rw [hmem n]
        by_cases hn : n = fileNumber <;> simp [hn, hprunable]

/-- The loop of `FindFilesToPrune` prunes some of the files that it may. -/
theorem pruneLoop_spec (s : BlockManager) (limit nBuffer nPruneTarget : Nat) :
    ∀ (files : List Nat) (nCurrentUsage : Nat) (x : List Nat × BlockManager), Pruned s x.1 x.2 →
      (x.1 ++ files).Nodup →
      ∃ y, pruneLoop limit nBuffer nPruneTarget files nCurrentUsage x = .ok y ∧
        Pruned s y.1 y.2 ∧ ∀ n ∈ y.1, n ∈ x.1 ∨ n ∈ files ∧ s.Prunable limit n := by
  intro files
  induction files with
  | nil =>
    intro nCurrentUsage x h _
    exact ⟨x, rfl, h, fun n hn => Or.inl hn⟩
  | cons fileNumber files ih =>
    intro nCurrentUsage x h hnodup
    have hnew : fileNumber ∉ x.1 := by
      intro hmem
      exact (nodup_append.mp hnodup).2.2 _ hmem _ mem_cons_self rfl
    have hskip : ∃ y, pruneLoop limit nBuffer nPruneTarget files nCurrentUsage x = .ok y ∧
        Pruned s y.1 y.2 ∧
        ∀ n ∈ y.1, n ∈ x.1 ∨ n ∈ fileNumber :: files ∧ s.Prunable limit n := by
      obtain ⟨y, hloop, hy, hmem⟩ := ih nCurrentUsage x h (hnodup.sublist (by simp))
      exact ⟨y, hloop, hy, fun n hn =>
        (hmem n hn).imp_right (And.imp_left (mem_cons_of_mem _))⟩
    rw [pruneLoop]
    split
    · exact hskip
    split
    · exact ⟨x, rfl, h, fun n hn => Or.inl hn⟩
    split
    · exact hskip
    next hsize _ hheight =>
    have hprunable := (h.prunable_iff hnew limit).mp ⟨hsize, Nat.le_of_not_lt hheight⟩
    obtain ⟨s', hrun, h'⟩ := h.pruneOneBlockFile hsize
    rw [hrun, ok_bind]
    obtain ⟨y, hloop, hy, hmem⟩ := ih _ (x.1 ++ [fileNumber], s') h' (by simpa using hnodup)
    refine ⟨y, hloop, hy, ?_⟩
    intro n hn
    rcases hmem n hn with hbefore | ⟨hfile, hok⟩
    · rcases mem_append.mp hbefore with hbefore | hn
      · exact Or.inl hbefore
      · rw [mem_singleton.mp hn]
        exact Or.inr ⟨mem_cons_self, hprunable⟩
    · exact Or.inr ⟨mem_cons_of_mem _ hfile, hok⟩

/-! ### Highest blocks of files -/

/-- The ledger's files; every block there has a range in its file. -/
def StoredIn (s : BlockManager) (l : FileLedger) : Prop :=
  s.files = l.files ∧ ∀ entry ∈ s.m_block_index, entry.haveData = true ∨ entry.haveUndo = true →
    ∃ b ∈ l.blocks, b.pos.nFile = entry.nFile ∧ b.nHeight = entry.pindex.nHeight

end BlockManager

theorem le_addBlock (info : CBlockFileInfo) (nHeight nTime : Nat) :
    info.nHeightLast ≤ (info.addBlock nHeight nTime).nHeightLast ∧
      nHeight ≤ (info.addBlock nHeight nTime).nHeightLast := by
  simp only [CBlockFileInfo.addBlock]
  split <;> omega

/-- Blocks that were assigned to a file are not above its highest block. -/
structure FileLedger.Heights (l : FileLedger) : Prop where
  nHeightLast : ∀ b ∈ l.blocks, b.nHeight ≤ (l.files.info b.pos.nFile).nHeightLast
  bounded : l.files.Bounded

theorem FileCall.run_heights {l l' : FileLedger} (h : l.Heights) {call : FileCall}
    (hallowed : call.Allowed l) (hrun : call.run l = .ok l') : l'.Heights := by
  cases call with
  | findBlockPos allocate nAddSize nHeight nTime =>
    obtain ⟨nFile, ok, files, hfound, -, hroom, -, -, hfiles⟩ :=
      findBlockPos_new h.bounded hallowed allocate ⟨0, 0⟩ nHeight nTime
    rw [FileCall.run, hfound, ok_bind, pure_eq_ok_iff] at hrun
    subst hrun
    constructor
    · intro b hb
      have hlast : (l.files.info nFile).nHeightLast ≤ _ ∧ nHeight ≤ _ := le_addBlock _ _ nTime
      rw [hfiles]
      rcases mem_cons.mp hb with rfl | hb
      · rw [if_pos rfl]
        exact hlast.2
      · split
        · next heq => exact (heq ▸ h.nHeightLast b hb).trans hlast.1
        · exact h.nHeightLast b hb
    · intro n
      rw [hfiles]
      split
      · exact hroom
      · exact h.bounded n
  | findUndoPos allocate nFile nAddSize =>
    simp only [FileCall.run, bind_eq_ok, pure_eq_ok_iff] at hrun
    obtain ⟨⟨ok, pos, files⟩, hfound, rfl⟩ := hrun
    have hsame : ∀ n, (files.info n).nHeightLast = (l.files.info n).nHeightLast ∧
        (files.info n).nSize = (l.files.info n).nSize := by
      intro n
      rw [(findUndoPos_eq_ok hfound).2.2]
      split
      · next heq => exact ⟨by rw [heq], by rw [heq]⟩
      · exact ⟨rfl, rfl⟩
    exact ⟨fun b hb => (hsame _).1 ▸ h.nHeightLast b hb, fun n => (hsame n).2 ▸ h.bounded n⟩
  | pruneOneBlockFile fileNumber =>
    simp only [FileCall.run, bind_eq_ok, pure_eq_ok_iff] at hrun
    obtain ⟨files, hnull, rfl⟩ := hrun
    have hfiles := (setNull_eq_ok hnull).2
    constructor
    · intro b hb
      obtain ⟨hb, hne⟩ := mem_filter.mp hb
      rw [hfiles, if_neg (by simpa using hne)]
      exact h.nHeightLast b hb
    · intro n
      rw [hfiles]
      split
      · decide
      · exact h.bounded n

namespace BlockManager

variable {s s' : BlockManager} {pruned : List Nat}

/-! ### What is kept -/

/-- Exactly the blocks of the pruned files lose their data and their undo data. -/
def LosesExactly (pruned : List Nat) (s s' : BlockManager) : Prop :=
  s'.m_block_index.map (fun entry => (entry.pindex, entry.haveData, entry.haveUndo)) =
    s.m_block_index.map fun entry => (entry.pindex, entry.haveData && entry.nFile ∉ pruned,
      entry.haveUndo && entry.nFile ∉ pruned)

/-- The last `MIN_BLOCKS_TO_KEEP` blocks of the active chain keep both flags. -/
def KeepsRecent (tip : Option CBlockIndex) (s s' : BlockManager) : Prop :=
  ∀ t ∈ tip, ∀ (i : Nat) entry entry', s.m_block_index[i]? = some entry →
    s'.m_block_index[i]? = some entry' → entry.pindex ≤ t →
    t.nHeight < entry.pindex.nHeight + MIN_BLOCKS_TO_KEEP →
    entry'.haveData = entry.haveData ∧ entry'.haveUndo = entry.haveUndo

theorem Pruned.losesExactly (h : Pruned s pruned s') : LosesExactly pruned s s' := by
  rw [LosesExactly, h.index, map_map]
  apply map_congr_left
  intro entry _
  by_cases hmem : entry.nFile ∈ pruned <;> simp [hmem, StoredBlock.cleared]

theorem Pruned.keepsRecent_iff (h : Pruned s pruned s') (tip : Option CBlockIndex) :
    KeepsRecent tip s s' ↔ ∀ t ∈ tip, ∀ entry ∈ s.m_block_index, entry.pindex ≤ t →
      t.nHeight < entry.pindex.nHeight + MIN_BLOCKS_TO_KEEP →
      entry.haveData = true ∨ entry.haveUndo = true → entry.nFile ∉ pruned := by
  have hplace : ∀ {i : Nat} {entry entry'}, s.m_block_index[i]? = some entry →
      (s'.m_block_index[i]? = some entry' ↔
        (if entry.nFile ∈ pruned then entry.cleared else entry) = entry') := by
    intro i entry entry' hentry
    rw [h.index, getElem?_map, hentry, Option.map_some, Option.some.injEq]
  constructor
  · intro hkeeps t ht entry hentry hle hrecent hstored hmem
    obtain ⟨i, hi⟩ := mem_iff_getElem?.mp hentry
    obtain ⟨hdata, hundo⟩ := hkeeps t ht i entry _ hi ((hplace hi).mpr rfl) hle hrecent
    rw [if_pos hmem] at hdata hundo
    rcases hstored with hstored | hstored
    · exact Bool.false_ne_true (hdata.trans hstored)
    · exact Bool.false_ne_true (hundo.trans hstored)
  · intro hkeeps t ht i entry entry' hi hi' hle hrecent
    obtain rfl := (hplace hi).mp hi'
    split
    · next hmem =>
      have hnone := fun hstored =>
        hkeeps t ht entry (mem_of_getElem? hi) hle hrecent hstored hmem
      simp only [imp_false, not_or, Bool.not_eq_true] at hnone
      exact ⟨hnone.1.symm, hnone.2.symm⟩
    · exact ⟨rfl, rfl⟩

variable {tip : CBlockIndex}

/-- Files without blocks above the limit hold no recent block. -/
theorem Pruned.keepsRecent (h : Pruned s pruned s') {l : FileLedger} (hl : l.Heights)
    (hstores : s.StoredIn l) (hlong : MIN_BLOCKS_TO_KEEP ≤ tip.nHeight)
    (hlimit : ∀ n ∈ pruned, s.Prunable (tip.nHeight - MIN_BLOCKS_TO_KEEP) n) :
    KeepsRecent (some tip) s s' := by
  rw [h.keepsRecent_iff]
  rintro _ ⟨⟩ entry hentry - hrecent hstored hmem
  obtain ⟨b, hb, hfile, hheight⟩ := hstores.2 entry hentry hstored
  have hlast := hl.nHeightLast b hb
  have hle := (hlimit _ hmem).2
  rw [hfile, hheight, ← hstores.1] at hlast
  omega

/-! ### The two functions -/

theorem findFilesToPrune_spec (s : BlockManager) (tip : Option CBlockIndex)
    (nPruneAfterHeight nPruneTarget : Nat) (isInitialBlockDownload : Bool) :
    ∃ pruned s', s.findFilesToPrune tip nPruneAfterHeight nPruneTarget isInitialBlockDownload =
        .ok (pruned, s') ∧ Pruned s pruned s' ∧
      ∀ n ∈ pruned, n < s.files.nLastBlockFile ∧
        ∃ t ∈ tip, nPruneAfterHeight < t.nHeight ∧ s.Prunable (lastBlockWeCanPrune t) n := by
  have hnothing : ∃ pruned s', (pure ([], s) : Run _) = .ok (pruned, s') ∧ Pruned s pruned s' ∧
      ∀ n ∈ pruned, n < s.files.nLastBlockFile ∧
        ∃ t ∈ tip, nPruneAfterHeight < t.nHeight ∧ s.Prunable (lastBlockWeCanPrune t) n :=
    ⟨[], s, rfl, Pruned.nil s, by simp⟩
  unfold findFilesToPrune
  cases tip with
  | none => exact hnothing
  | some tip =>
    dsimp only
    split
    · exact hnothing
    split
    · exact hnothing
    next hheight =>
    split
    · obtain ⟨⟨pruned, s'⟩, hloop, hpruned, hmem⟩ := pruneLoop_spec s (lastBlockWeCanPrune tip) _
        nPruneTarget (List.range s.files.nLastBlockFile) _ ([], s) (Pruned.nil s)
        (by simpa using nodup_range)
      refine ⟨pruned, s', hloop, hpruned, fun n hn => ?_⟩
      obtain hn | ⟨hn, hprunable⟩ := hmem n hn
      · cases hn
      · exact ⟨mem_range.mp hn, tip, rfl, Nat.lt_of_not_le hheight, hprunable⟩
    · exact hnothing

theorem findFilesToPruneManual_spec {s : BlockManager} (hmode : s.files.fPruneMode = true)
    (tip : Option CBlockIndex) {nManualPruneHeight : Int32} (hpos : 0 < nManualPruneHeight) :
    ∃ pruned s', s.findFilesToPruneManual tip nManualPruneHeight = .ok (pruned, s') ∧
      Pruned s pruned s' ∧ ∀ n, n ∈ pruned ↔ n < s.files.nLastBlockFile ∧ ∃ t ∈ tip,
        s.Prunable (min nManualPruneHeight.toUInt32.toNat (lastBlockWeCanPrune t)) n := by
  simp only [findFilesToPruneManual, hmode, hpos, decide_true, Bool.and_self, require_true, ok_bind]
  cases tip with
  | none => exact ⟨[], s, rfl, Pruned.nil s, by simp⟩
  | some tip =>
    obtain ⟨⟨pruned, s'⟩, hloop, hpruned, hmem⟩ := foldlM_pruneManualStep s
      (min nManualPruneHeight.toUInt32.toNat (lastBlockWeCanPrune tip))
      (List.range s.files.nLastBlockFile) ([], s) (Pruned.nil s) (by simpa using nodup_range)
    exact ⟨pruned, s', hloop, hpruned, fun n => by simpa using hmem n⟩

theorem toUInt32_toNat_lt {h : Int32} (hpos : 0 < h) : h.toUInt32.toNat < 2 ^ 31 := by
  have hint : 0 < h.toInt := Int32.lt_iff_toInt_lt.mp hpos
  rw [Int32.toInt, BitVec.toInt_eq_toNat_cond] at hint
  split at hint
  · next hlt => exact (by omega : h.toBitVec.toNat < 2 ^ 31)
  · omega

theorem lastBlockWeCanPrune_of_le (hheight : tip.nHeight < 2 ^ 31)
    (h : MIN_BLOCKS_TO_KEEP ≤ tip.nHeight) :
    lastBlockWeCanPrune tip = tip.nHeight - MIN_BLOCKS_TO_KEEP := by
  unfold lastBlockWeCanPrune
  omega

theorem lastBlockWeCanPrune_of_lt (h : tip.nHeight < MIN_BLOCKS_TO_KEEP) :
    2 ^ 31 ≤ lastBlockWeCanPrune tip := by
  unfold MIN_BLOCKS_TO_KEEP at h
  unfold lastBlockWeCanPrune MIN_BLOCKS_TO_KEEP
  omega

end BlockManager

namespace Regtest

def emptyLedger : FileLedger := { files := { fPruneMode := true } }

def chainBlock (nHeight : Nat) : CBlockIndex :=
  ⟨⟨BitVec.ofNat 256 nHeight, 0⟩, (List.range nHeight).reverse.map fun n => ⟨BitVec.ofNat 256 n, 0⟩⟩

def storeOf (l : FileLedger) : BlockManager where
  files := l.files
  m_block_index := l.blocks.map fun b =>
    { pindex := chainBlock b.nHeight, nFile := b.pos.nFile, nDataPos := b.pos.nPos + 8
      haveData := true }

theorem nHeight_chainBlock (nHeight : Nat) : (chainBlock nHeight).nHeight = nHeight := by
  simp [chainBlock, CBlockIndex.nHeight]

theorem storeOf_storedIn (l : FileLedger) : (storeOf l).StoredIn l := by
  refine ⟨rfl, fun entry hentry _ => ?_⟩
  obtain ⟨b, hb, rfl⟩ := mem_map.mp hentry
  exact ⟨b, hb, rfl, (nHeight_chainBlock _).symm⟩

def fullBlocks : List FileCall :=
  (List.range 34).map fun n => .findBlockPos (fun _ _ => some 0) 4000008 (n + 1) 7

def fullLedger : Run FileLedger := fullBlocks.foldlM (fun l call => call.run l) emptyLedger

end Regtest

end VBitcoin
