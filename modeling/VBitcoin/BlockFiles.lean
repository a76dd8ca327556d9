import VBitcoin.Primitives

/-!
**Where blocks and undo data are stored** (`FindBlockPos`, `FindUndoPos` in `validation.cpp`,
`CBlockFileInfo` in `chain.h`) — a block goes behind the others of the last file with room,
undo data behind that of the same file.  Nothing bounds an undo file, whose size can wrap
around, and then undo data is overwritten.
-/

namespace VBitcoin

open List

/-! ### The code -/

def MAX_BLOCKFILE_SIZE : Nat := 0x8000000

structure FlatFilePos where
  nFile : Nat
  nPos : Nat
  deriving DecidableEq, Repr

/-- `CBlockFileInfo`; the default is what `SetNull` leaves. -/
structure CBlockFileInfo where
  nBlocks : Nat := 0
  nSize : Nat := 0
  nUndoSize : Nat := 0
  nHeightFirst : Nat := 0
  nHeightLast : Nat := 0
  nTimeFirst : Nat := 0
  nTimeLast : Nat := 0
  deriving DecidableEq, Repr

def CBlockFileInfo.addBlock (info : CBlockFileInfo) (nHeightIn nTimeIn : Nat) : CBlockFileInfo where
  nBlocks := (info.nBlocks + 1) % 2 ^ 32
  nSize := info.nSize
  nUndoSize := info.nUndoSize
  nHeightFirst :=
    if info.nBlocks = 0 ∨ nHeightIn < info.nHeightFirst then nHeightIn else info.nHeightFirst
  nHeightLast := if info.nHeightLast < nHeightIn then nHeightIn else info.nHeightLast
  nTimeFirst := if info.nBlocks = 0 ∨ nTimeIn < info.nTimeFirst then nTimeIn else info.nTimeFirst
  nTimeLast := if info.nTimeLast < nTimeIn then nTimeIn else info.nTimeLast

/-- The variables that `cs_LastBlockFile` guards, and the mode of the node. -/
structure BlockFiles where
  vinfoBlockFile : List CBlockFileInfo := []
  nLastBlockFile : Nat := 0
  setDirtyFileInfo : List Nat := []
  fCheckForPruning : Bool := false
  fPruneMode : Bool := false
  deriving DecidableEq, Repr

variable (vinfo : List CBlockFileInfo)

def growTo (n : Nat) : List CBlockFileInfo :=
  vinfo ++ List.replicate (n - vinfo.length) ({} : CBlockFileInfo)

/-- The search for room; it does not end when an empty file has none. -/
def findFile (nAddSize : Nat) : Nat → List CBlockFileInfo → Nat → Run (Nat × List CBlockFileInfo)
  | 0, _, _ => .error (.undefined "no block file has room")
  | turns + 1, vinfo, nFile =>
    if MAX_BLOCKFILE_SIZE ≤ ((vinfo.getD nFile {}).nSize + nAddSize) % 2 ^ 32 then
      findFile nAddSize turns (growTo vinfo (nFile + 2)) (nFile + 1)
    else pure (nFile, vinfo)

/-- The bytes that `FlatFileSeq::Allocate` allocated, unless there is no space. -/
abbrev Allocate := FlatFilePos → Nat → Option Nat

/-- What follows the allocation; without space the node is aborted. -/
def BlockFiles.allocated (s : BlockFiles) : Option Nat → Bool × BlockFiles
  | none => (false, s)
  | some bytes_allocated =>
    if bytes_allocated ≠ 0 ∧ s.fPruneMode then (true, { s with fCheckForPruning := true })
    else (true, s)

def BlockFiles.setDirty (s : BlockFiles) (nFile : Nat) : BlockFiles :=
  { s with setDirtyFileInfo := s.setDirtyFileInfo.insert nFile }

/-- `FindBlockPos`: whether it succeeded, and the position. -/
def findBlockPos (allocate : Allocate) (s : BlockFiles) (pos : FlatFilePos)
    (nAddSize nHeight nTime : Nat) (fKnown : Bool) : Run (Bool × FlatFilePos × BlockFiles) := do
  let nFile := if fKnown then pos.nFile else s.nLastBlockFile
  let vinfo := growTo s.vinfoBlockFile (nFile + 1)
  if fKnown then
    let info := (vinfo.getD nFile {}).addBlock nHeight nTime
    let info := { info with nSize := max ((pos.nPos + nAddSize) % 2 ^ 32) info.nSize }
    pure (true, pos, BlockFiles.setDirty
      { s with vinfoBlockFile := vinfo.set nFile info, nLastBlockFile := nFile } nFile)
  else do
    let (nFile, vinfo) ← findFile nAddSize (vinfo.length + 1) vinfo nFile
    let pos : FlatFilePos := ⟨nFile, (vinfo.getD nFile {}).nSize⟩
    let info := (vinfo.getD nFile {}).addBlock nHeight nTime
    let info := { info with nSize := (info.nSize + nAddSize) % 2 ^ 32 }
    let (ok, s) := BlockFiles.allocated
      { s with vinfoBlockFile := vinfo.set nFile info, nLastBlockFile := nFile }
      (allocate pos nAddSize)
    pure (ok, pos, if ok then s.setDirty nFile else s)

/-- `FindUndoPos`; the file has to be there. -/
def findUndoPos (allocate : Allocate) (s : BlockFiles) (nFile nAddSize : Nat) :
    Run (Bool × FlatFilePos × BlockFiles) :=
  match s.vinfoBlockFile[nFile]? with
  | none => .error (.undefined "vinfoBlockFile[nFile]")
  | some info =>
    let pos : FlatFilePos := ⟨nFile, info.nUndoSize⟩
    let info := { info with nUndoSize := (info.nUndoSize + nAddSize) % 2 ^ 32 }
    let s := { s with vinfoBlockFile := s.vinfoBlockFile.set nFile info }.setDirty nFile
    let (ok, s) := s.allocated (allocate pos nAddSize)
    pure (ok, pos, s)

def BlockFiles.setNull (s : BlockFiles) (fileNumber : Nat) : Run BlockFiles :=
  if fileNumber < s.vinfoBlockFile.length then
    pure ({ s with vinfoBlockFile := s.vinfoBlockFile.set fileNumber {} }.setDirty fileNumber)
  else .error (.undefined "vinfoBlockFile[fileNumber]")

/-! ### Files by their number -/

def BlockFiles.info (s : BlockFiles) (n : Nat) : CBlockFileInfo := s.vinfoBlockFile.getD n {}

theorem getD_growTo (n m : Nat) : (growTo vinfo n).getD m {} = vinfo.getD m {} := by
  rcases Nat.lt_or_ge m vinfo.length with hlt | hge
  · rw [growTo, getD_append _ _ _ _ hlt]
  · rw [growTo, getD_append_right _ _ _ _ hge, getD_eq_default _ _ hge,
      getD_eq_getElem?_getD, getElem?_replicate]
    split <;> rfl

theorem length_growTo (n : Nat) : (growTo vinfo n).length = max vinfo.length n := by
  rw [growTo, length_append, length_replicate]
  omega

theorem getD_set {vinfo : List CBlockFileInfo} {n : Nat} (h : n < vinfo.length)
    (info : CBlockFileInfo) (m : Nat) :
    (vinfo.set n info).getD m {} = if m = n then info else vinfo.getD m {} := by
  rw [getD_eq_getElem?_getD, getElem?_set]
  by_cases hm : m = n
  · subst hm
    rw [if_pos rfl, if_pos rfl, if_pos h]
    rfl
  · rw [if_neg (Ne.symm hm), if_neg hm, getD_eq_getElem?_getD]

variable {s : BlockFiles} {nAddSize : Nat}

theorem allocated_vinfo {result : Option Nat} {after : Bool × BlockFiles}
    (h : s.allocated result = after) :
    after.2.vinfoBlockFile = s.vinfoBlockFile ∧ after.2.nLastBlockFile = s.nLastBlockFile := by
  subst h
  unfold BlockFiles.allocated
  cases result with
  | none => exact ⟨rfl, rfl⟩
  | some bytes_allocated =>
    dsimp only
    split <;> exact ⟨rfl, rfl⟩

/-! ### The search for a file -/

/-- Behind the files in use there are empty ones, where the loop ends. -/
theorem findFile_eq_ok (hsize : nAddSize < MAX_BLOCKFILE_SIZE) :
    ∀ {turns : Nat} {vinfo : List CBlockFileInfo} {nFile : Nat},
      (∀ n, (vinfo.getD n {}).nSize < MAX_BLOCKFILE_SIZE) → nFile < vinfo.length →
      (∀ n, nFile + turns ≤ n + 1 → (vinfo.getD n {}).nSize = 0) → 0 < turns →
      ∃ nFile' vinfo', findFile nAddSize turns vinfo nFile = .ok (nFile', vinfo') ∧
        nFile ≤ nFile' ∧ nFile' < vinfo'.length ∧ vinfo.length ≤ vinfo'.length ∧
        (∀ n, vinfo'.getD n {} = vinfo.getD n {}) ∧
        (vinfo.getD nFile' {}).nSize + nAddSize < MAX_BLOCKFILE_SIZE := by
  have hmax : MAX_BLOCKFILE_SIZE = 134217728 := rfl
  intro turns
  induction turns with
  | zero =>
    intro vinfo nFile _ _ _ hpos
    cases hpos
  | succ turns ih =>
    intro vinfo nFile hbound hlt hempty _
    have hmod : ((vinfo.getD nFile {}).nSize + nAddSize) % 2 ^ 32 =
        (vinfo.getD nFile {}).nSize + nAddSize := by
      have := hbound nFile
      exact Nat.mod_eq_of_lt (by omega)
    rw [findFile, hmod]
    by_cases hfull : MAX_BLOCKFILE_SIZE ≤ (vinfo.getD nFile {}).nSize + nAddSize
    · have hturns : 0 < turns := by
        rcases Nat.eq_zero_or_pos turns with rfl | hpos
        · have := hempty nFile (by omega)
          omega
        · exact hpos
      rw [if_pos hfull]
      obtain ⟨nFile', vinfo', hfound, hge, hlt', hlength, hsame, hroom⟩ :=
        @ih (growTo vinfo (nFile + 2)) (nFile + 1)
          (fun n => by rw [getD_growTo]; exact hbound n)
          (by rw [length_growTo]; omega)
          (fun n hn => by rw [getD_growTo]; exact hempty n (by omega)) hturns
      refine ⟨nFile', vinfo', hfound, by omega, hlt', ?_, ?_, ?_⟩
      · rw [length_growTo] at hlength
        omega
      · intro n
        rw [hsame n, getD_growTo]
      · rwa [getD_growTo] at hroom
    · rw [if_neg hfull]
      exact ⟨nFile, vinfo, rfl, Nat.le_refl _, hlt, Nat.le_refl _, fun _ => rfl, by omega⟩

/-! ### What the calls do -/

def CBlockFileInfo.withBlock (info : CBlockFileInfo) (nAddSize nHeight nTime : Nat) :
    CBlockFileInfo :=
  { info.addBlock nHeight nTime with nSize := info.nSize + nAddSize }

def BlockFiles.Bounded (s : BlockFiles) : Prop := ∀ n, (s.info n).nSize < MAX_BLOCKFILE_SIZE

/-- At the end of a file with room, the last one or one behind it. -/
theorem findBlockPos_new (hbounded : s.Bounded)
    (hsize : nAddSize < MAX_BLOCKFILE_SIZE) (allocate : Allocate) (pos : FlatFilePos)
    (nHeight nTime : Nat) :
    ∃ nFile ok s', findBlockPos allocate s pos nAddSize nHeight nTime false =
        .ok (ok, ⟨nFile, (s.info nFile).nSize⟩, s') ∧
      s.nLastBlockFile ≤ nFile ∧ (s.info nFile).nSize + nAddSize < MAX_BLOCKFILE_SIZE ∧
      s'.nLastBlockFile = nFile ∧ nFile < s'.vinfoBlockFile.length ∧
      ∀ n, s'.info n =
        if n = nFile then (s.info nFile).withBlock nAddSize nHeight nTime else s.info n := by
  have hmax : MAX_BLOCKFILE_SIZE = 134217728 := rfl
  obtain ⟨nFile, vinfo, hfound, hge, hlt, -, hsame, hroom⟩ := @findFile_eq_ok nAddSize hsize
    ((growTo s.vinfoBlockFile (s.nLastBlockFile + 1)).length + 1)
    (growTo s.vinfoBlockFile (s.nLastBlockFile + 1)) s.nLastBlockFile
    (fun n => by rw [getD_growTo]; exact hbounded n) (by rw [length_growTo]; omega)
    (fun n hn => by rw [getD_eq_default _ _ (by omega)]) (by omega)
  simp only [getD_growTo] at hsame hroom
  have hmod : ((s.vinfoBlockFile.getD nFile {}).nSize + nAddSize) % 2 ^ 32 =
      (s.vinfoBlockFile.getD nFile {}).nSize + nAddSize := Nat.mod_eq_of_lt (by omega)
  unfold findBlockPos
  simp only [Bool.false_eq_true, if_false, hfound, ok_bind, hsame, CBlockFileInfo.addBlock, hmod]
  generalize hresult : BlockFiles.allocated _ _ = result
  obtain ⟨hvinfo, hlast⟩ := allocated_vinfo hresult
  refine ⟨nFile, _, _, rfl, hge, hroom, ?_, ?_, ?_⟩
  · split <;> exact hlast
  · split <;> exact hvinfo ▸ (by simpa using hlt)
  · intro n
    have hinfo : (if result.1 then result.2.setDirty nFile else result.2).info n =
        result.2.vinfoBlockFile.getD n {} := by split <;> rfl
    rw [hinfo, hvinfo, getD_set hlt, hsame]
    rfl

theorem findUndoPos_eq_ok {s' : BlockFiles} {allocate : Allocate} {nFile : Nat}
    {ok : Bool} {pos : FlatFilePos}
    (h : findUndoPos allocate s nFile nAddSize = .ok (ok, pos, s')) :
    pos = ⟨nFile, (s.info nFile).nUndoSize⟩ ∧ s'.nLastBlockFile = s.nLastBlockFile ∧
      ∀ n, s'.info n = if n = nFile then
        { s.info nFile with nUndoSize := ((s.info nFile).nUndoSize + nAddSize) % 2 ^ 32 }
        else s.info n := by
  unfold findUndoPos at h
  cases hinfo : s.vinfoBlockFile[nFile]? with
  | none =>
    rw [hinfo] at h
    cases h
  | some info =>
    have hget : s.info nFile = info := by
      rw [BlockFiles.info, getD_eq_getElem?_getD, hinfo]
      rfl
    obtain ⟨hlt, -⟩ := List.getElem?_eq_some_iff.mp hinfo
    rw [hinfo] at h
    simp only [pure_eq_ok_iff, Prod.mk.injEq] at h
    obtain ⟨-, rfl, rfl⟩ := h
    obtain ⟨hvinfo, hlast⟩ := @allocated_vinfo (BlockFiles.setDirty _ nFile)
      (allocate ⟨nFile, info.nUndoSize⟩ nAddSize) _ rfl
    refine ⟨by rw [hget], hlast, fun n => ?_⟩
    rw [BlockFiles.info, hvinfo]
    simp only [BlockFiles.setDirty]
    rw [getD_set hlt, hget]
    rfl

theorem setNull_eq_ok {s' : BlockFiles} {fileNumber : Nat} (h : s.setNull fileNumber = .ok s') :
    s'.nLastBlockFile = s.nLastBlockFile ∧
      ∀ n, s'.info n = if n = fileNumber then {} else s.info n := by
  unfold BlockFiles.setNull at h
  split at h
  · next hlt =>
    cases h
    exact ⟨rfl, fun n => getD_set hlt _ n⟩
  · cases h

/-! ### Runs -/

structure BlockRange where
  pos : FlatFilePos
  nAddSize : Nat
  nHeight : Nat
  nTime : Nat
  deriving DecidableEq, Repr

structure UndoRange where
  pos : FlatFilePos
  nAddSize : Nat
  deriving DecidableEq, Repr

/-- The files, and the ranges of them that are in use. -/
structure FileLedger where
  files : BlockFiles := {}
  blocks : List BlockRange := []
  undos : List UndoRange := []
  deriving DecidableEq, Repr

inductive FileCall where
  | findBlockPos (allocate : Allocate) (nAddSize nHeight nTime : Nat)
  | findUndoPos (allocate : Allocate) (nFile nAddSize : Nat)
  | pruneOneBlockFile (fileNumber : Nat)

namespace FileCall

/-- A range counts as in use even when the disk is full and the node aborts. -/
def run : FileCall → FileLedger → Run FileLedger
  | findBlockPos allocate nAddSize nHeight nTime, l => do
    let (_, pos, files) ← VBitcoin.findBlockPos allocate l.files ⟨0, 0⟩ nAddSize nHeight nTime false
    pure { l with files, blocks := ⟨pos, nAddSize, nHeight, nTime⟩ :: l.blocks }
  | findUndoPos allocate nFile nAddSize, l => do
    let (_, pos, files) ← VBitcoin.findUndoPos allocate l.files nFile nAddSize
    pure { l with files, undos := ⟨pos, nAddSize⟩ :: l.undos }
  | pruneOneBlockFile fileNumber, l => do
    let files ← l.files.setNull fileNumber
    pure { files, blocks := l.blocks.filter (·.pos.nFile ≠ fileNumber),
           undos := l.undos.filter (·.pos.nFile ≠ fileNumber) }

/-- Blocks that have room in a file, and files that are not the last one. -/
def Allowed (l : FileLedger) : FileCall → Prop
  | findBlockPos _ nAddSize _ _ => nAddSize < MAX_BLOCKFILE_SIZE
  | findUndoPos _ _ _ => True
  | pruneOneBlockFile fileNumber => fileNumber < l.files.nLastBlockFile

/-- A block has bytes, and there is room for the undo data below 4 GiB. -/
def Fits (l : FileLedger) : FileCall → Prop
  | findBlockPos _ nAddSize _ _ => 0 < nAddSize
  | findUndoPos _ nFile nAddSize => (l.files.info nFile).nUndoSize + nAddSize < 2 ^ 32
  | pruneOneBlockFile _ => True

end FileCall

/-- Two ranges of one file do not overlap. -/
def FlatFilePos.Apart (pos : FlatFilePos) (size : Nat) (pos' : FlatFilePos) (size' : Nat) : Prop :=
  pos.nFile = pos'.nFile → pos.nPos + size ≤ pos'.nPos ∨ pos'.nPos + size' ≤ pos.nPos

structure CBlockFileInfo.Covers (info : CBlockFileInfo) (b : BlockRange) : Prop where
  nSize : b.pos.nPos + b.nAddSize ≤ info.nSize
  nHeightFirst : info.nHeightFirst ≤ b.nHeight
  nHeightLast : b.nHeight ≤ info.nHeightLast
  nTimeFirst : info.nTimeFirst ≤ b.nTime
  nTimeLast : b.nTime ≤ info.nTimeLast

def FileLedger.blocksIn (l : FileLedger) (n : Nat) : List BlockRange :=
  l.blocks.filter (·.pos.nFile = n)

/-- Ranges are apart and end inside of the file; the entries cover them. -/
structure FileLedger.Sound (l : FileLedger) : Prop where
  blocksApart : l.blocks.Pairwise fun b b' => b.pos.Apart b.nAddSize b'.pos b'.nAddSize
  blocksEnd : ∀ b ∈ l.blocks, b.pos.nPos + b.nAddSize < MAX_BLOCKFILE_SIZE
  undosApart : l.undos.Pairwise fun u u' => u.pos.Apart u.nAddSize u'.pos u'.nAddSize
  covers : ∀ b ∈ l.blocks, (l.files.info b.pos.nFile).Covers b
  nBlocks : ∀ n, (l.files.info n).nBlocks = (l.blocksIn n).length
  nUndoSize : ∀ u ∈ l.undos, u.pos.nPos + u.nAddSize ≤ (l.files.info u.pos.nFile).nUndoSize

structure FileLedger.Inv (l : FileLedger) : Prop extends l.Sound where
  bounded : l.files.Bounded
  /-- Every block has at least one byte, so that `nBlocks` does not wrap around. -/
  fewBlocks : ∀ n, (l.files.info n).nBlocks ≤ (l.files.info n).nSize

/-! ### One call -/

theorem CBlockFileInfo.Covers.withBlock {info : CBlockFileInfo} {b : BlockRange}
    (h : info.Covers b) (hblocks : info.nBlocks ≠ 0) (nAddSize nHeight nTime : Nat) :
    (info.withBlock nAddSize nHeight nTime).Covers b := by
  obtain ⟨hsize, hfirst, hlast, hfirst', hlast'⟩ := h
  constructor
  · exact Nat.le_add_right_of_le hsize
  all_goals
    simp only [CBlockFileInfo.withBlock, CBlockFileInfo.addBlock]
    split <;> omega

theorem covers_withBlock (info : CBlockFileInfo) (nFile nAddSize nHeight nTime : Nat) :
    (info.withBlock nAddSize nHeight nTime).Covers
      ⟨⟨nFile, info.nSize⟩, nAddSize, nHeight, nTime⟩ := by
  constructor
  · exact Nat.le_refl _
  all_goals
    simp only [CBlockFileInfo.withBlock, CBlockFileInfo.addBlock]
    split <;> omega

namespace FileLedger

variable {l l' : FileLedger}

theorem blocksIn_cons (l : FileLedger) (b : BlockRange) (files : BlockFiles) (n : Nat) :
    ({ l with files, blocks := b :: l.blocks } : FileLedger).blocksIn n =
      if b.pos.nFile = n then b :: l.blocksIn n else l.blocksIn n := by
  simp only [blocksIn, filter_cons, decide_eq_true_eq]

theorem Sound.nBlocks_ne_zero (h : l.Sound) {b : BlockRange} (hb : b ∈ l.blocks) :
    (l.files.info b.pos.nFile).nBlocks ≠ 0 := by
  rw [h.nBlocks]
  intro hzero
  have hmem : b ∈ l.blocksIn b.pos.nFile := mem_filter.mpr ⟨hb, by simp⟩
  rw [eq_nil_of_length_eq_zero hzero] at hmem
  cases hmem

variable {files : BlockFiles}

theorem Inv.addBlock (h : l.Inv) {nFile nAddSize nHeight nTime : Nat} (hsize : 0 < nAddSize)
    (hroom : (l.files.info nFile).nSize + nAddSize < MAX_BLOCKFILE_SIZE)
    (hfiles : ∀ n, files.info n = if n = nFile then
      (l.files.info nFile).withBlock nAddSize nHeight nTime else l.files.info n) :
    ({ l with files, blocks := ⟨⟨nFile, (l.files.info nFile).nSize⟩, nAddSize, nHeight, nTime⟩ ::
      l.blocks } : FileLedger).Inv := by
  have hmax : MAX_BLOCKFILE_SIZE = 134217728 := rfl
  have hfew := h.fewBlocks nFile
  have hcount : ((l.files.info nFile).nBlocks + 1) % 2 ^ 32 = (l.files.info nFile).nBlocks + 1 :=
    Nat.mod_eq_of_lt (by omega)
  refine ⟨⟨pairwise_cons.mpr ⟨?_, h.blocksApart⟩, ?_, h.undosApart, ?_, ?_, ?_⟩, ?_, ?_⟩
  · intro b hb hsame
    have hend := (h.covers b hb).nSize
    rw [← hsame] at hend
    exact Or.inr hend
  · intro b hb
    rcases mem_cons.mp hb with rfl | hb
    · exact hroom
    · exact h.blocksEnd b hb
  · intro b hb
    rw [hfiles]
    rcases mem_cons.mp hb with rfl | hb
    · rw [if_pos rfl]
      exact covers_withBlock _ _ _ _ _
    · split
      · next heq =>
        rw [← heq]
        exact (h.covers b hb).withBlock (h.nBlocks_ne_zero hb) _ _ _
      · exact h.covers b hb
  · intro n
    rw [blocksIn_cons, hfiles]
    by_cases hn : n = nFile
    · rw [if_pos hn, if_pos hn.symm, length_cons, hn, ← h.nBlocks]
      exact hcount
    · rw [if_neg hn, if_neg (Ne.symm hn), h.nBlocks]
  · intro u hu
    have hundo := h.nUndoSize u hu
    rw [hfiles]
    split
    · next heq =>
      rw [heq] at hundo
      exact hundo
    · exact hundo
  · intro n
    rw [hfiles]
    split
    · exact hroom
    · exact h.bounded n
  · intro n
    rw [hfiles]
    split
    · change ((l.files.info nFile).nBlocks + 1) % 2 ^ 32 ≤ (l.files.info nFile).nSize + nAddSize
      omega
    · exact h.fewBlocks n

theorem Inv.addUndo (h : l.Inv) {nFile nAddSize : Nat}
    (hroom : (l.files.info nFile).nUndoSize + nAddSize < 2 ^ 32)
    (hfiles : ∀ n, files.info n = if n = nFile then
      { l.files.info nFile with
        nUndoSize := ((l.files.info nFile).nUndoSize + nAddSize) % 2 ^ 32 }
      else l.files.info n) :
    ({ l with files, undos := ⟨⟨nFile, (l.files.info nFile).nUndoSize⟩, nAddSize⟩ :: l.undos } :
      FileLedger).Inv := by
  rw [Nat.mod_eq_of_lt hroom] at hfiles
  -- nothing but `nUndoSize` changes
  have hsize : ∀ n, (files.info n).nSize = (l.files.info n).nSize := by
    intro n
    rw [hfiles]
    split
    · next heq => rw [heq]
    · rfl
  have hcount : ∀ n, (files.info n).nBlocks = (l.files.info n).nBlocks := by
    intro n
    rw [hfiles]
    split
    · next heq => rw [heq]
    · rfl
  refine ⟨⟨h.blocksApart, h.blocksEnd, pairwise_cons.mpr ⟨?_, h.undosApart⟩, ?_, ?_, ?_⟩,
    ?_, ?_⟩
  · intro u hu hsame
    have hend := h.nUndoSize u hu
    rw [← hsame] at hend
    exact Or.inr hend
  · intro b hb
    have hcovers := h.covers b hb
    rw [hfiles]
    split
    · next heq =>
      rw [heq] at hcovers
      exact ⟨hcovers.nSize, hcovers.nHeightFirst, hcovers.nHeightLast, hcovers.nTimeFirst,
        hcovers.nTimeLast⟩
    · exact hcovers
  · exact fun n => (hcount n).trans (h.nBlocks n)
  · intro u hu
    rw [hfiles]
    rcases mem_cons.mp hu with rfl | hu
    · simp
    · have hend := h.nUndoSize u hu
      split
      · next heq =>
        rw [heq] at hend
        exact Nat.le_add_right_of_le hend
      · exact hend
  · intro n
    rw [hsize]
    exact h.bounded n
  · intro n
    rw [hsize, hcount]
    exact h.fewBlocks n

theorem Inv.prune (h : l.Inv) {fileNumber : Nat}
    (hfiles : ∀ n, files.info n = if n = fileNumber then {} else l.files.info n) :
    ({ files, blocks := l.blocks.filter (·.pos.nFile ≠ fileNumber),
       undos := l.undos.filter (·.pos.nFile ≠ fileNumber) } : FileLedger).Inv := by
  have hother : ∀ {n}, n ≠ fileNumber → files.info n = l.files.info n := by
    intro n hn
    rw [hfiles, if_neg hn]
  refine ⟨⟨h.blocksApart.filter _, ?_, h.undosApart.filter _, ?_, ?_, ?_⟩, ?_, ?_⟩
  · intro b hb
    exact h.blocksEnd b (mem_of_mem_filter hb)
  · intro b hb
    obtain ⟨hb, hne⟩ := mem_filter.mp hb
    rw [hother (by simpa using hne)]
    exact h.covers b hb
  · intro n
    rw [hfiles]
    simp only [blocksIn, filter_filter]
    split
    · next heq => simp [heq]
    · next hne =>
      rw [h.nBlocks, blocksIn]
      congr 1
      apply filter_congr
      intro b _
      by_cases hb : b.pos.nFile = n
      · simp [hb, hne]
      · simp [hb]
  · intro u hu
    obtain ⟨hu, hne⟩ := mem_filter.mp hu
    rw [hother (by simpa using hne)]
    exact h.nUndoSize u hu
  · intro n
    rw [hfiles]
    split
    · decide
    · exact h.bounded n
  · intro n
    rw [hfiles]
    split
    · exact Nat.le_refl _
    · exact h.fewBlocks n

end FileLedger

theorem FileCall.run_findBlockPos {l : FileLedger} (h : l.files.Bounded) (allocate : Allocate)
    (hsize : nAddSize < MAX_BLOCKFILE_SIZE) (nHeight nTime : Nat) :
    ∃ l', (FileCall.findBlockPos allocate nAddSize nHeight nTime).run l = .ok l' := by
  obtain ⟨nFile, ok, files, hfound, -⟩ := findBlockPos_new h hsize allocate ⟨0, 0⟩ nHeight nTime
  rw [FileCall.run, hfound]
  exact ⟨_, rfl⟩

/-- **Every call keeps the ranges apart.** -/
theorem FileCall.run_inv {l l' : FileLedger} (h : l.Inv) {call : FileCall}
    (hallowed : call.Allowed l) (hfits : call.Fits l) (hrun : call.run l = .ok l') : l'.Inv := by
  cases call with
  | findBlockPos allocate nAddSize nHeight nTime =>
    obtain ⟨nFile, ok, files, hfound, -, hroom, -, -, hfiles⟩ :=
      findBlockPos_new h.bounded hallowed allocate ⟨0, 0⟩ nHeight nTime
    rw [FileCall.run, hfound, ok_bind, pure_eq_ok_iff] at hrun
    exact hrun ▸ h.addBlock hfits hroom hfiles
  | findUndoPos allocate nFile nAddSize =>
    simp only [FileCall.run, bind_eq_ok, pure_eq_ok_iff] at hrun
    obtain ⟨⟨ok, pos, files⟩, hfound, rfl⟩ := hrun
    obtain ⟨rfl, -, hfiles⟩ := findUndoPos_eq_ok hfound
    exact h.addUndo hfits hfiles
  | pruneOneBlockFile fileNumber =>
    simp only [FileCall.run, bind_eq_ok, pure_eq_ok_iff] at hrun
    obtain ⟨files, hnull, rfl⟩ := hrun
    exact h.prune (setNull_eq_ok hnull).2

theorem FileLedger.inv_empty : FileLedger.Inv {} where
  blocksApart := List.Pairwise.nil
  blocksEnd := by simp
  undosApart := List.Pairwise.nil
  covers := by simp
  nBlocks := fun _ => rfl
  nUndoSize := by simp
  bounded := fun _ => (by decide : 0 < MAX_BLOCKFILE_SIZE)
  fewBlocks := fun _ => Nat.le_refl _

def firstStored : FileLedger where
  files := { vinfoBlockFile := [⟨1, 300, 0, 1, 1, 7, 7⟩], setDirtyFileInfo := [0] }
  blocks := [⟨⟨0, 0⟩, 300, 1, 7⟩]

/-- Nineteen blocks of a megabyte, each with 240 megabytes of undo data. -/
def heavyBlocks : List FileCall :=
  List.replicate 19 (.findBlockPos (fun _ _ => some 0) 1000008 1 1) ++
    List.replicate 19 (.findUndoPos (fun _ _ => some 0) 0 240000000)

def undosAfter (calls : List FileCall) : Option (List UndoRange) :=
  match calls.foldlM (fun l call => call.run l) ({} : FileLedger) with
  | .ok l => some l.undos
  | .error _ => none

end VBitcoin
