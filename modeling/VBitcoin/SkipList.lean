import VBitcoin.BlockTree

/-!
**Ancestors by skip pointers** (`chain.cpp`) — `GetAncestor` follows the parent or a pointer
further down, which `BuildSkip` finds by the same walk.  Entries are cells whose pointers are
positions in the order of allocation; the walk ends where the parent pointers lead, which is
`CBlockIndex.getAncestor` (`getAncestor_index`).
-/

namespace VBitcoin

def invertLowestOne (n : Nat) : Nat := n &&& (n - 1)

def getSkipHeight (height : Nat) : Nat :=
  if height < 2 then 0
  else if height % 2 = 1 then invertLowestOne (invertLowestOne (height - 1)) + 1
  else invertLowestOne height

structure IndexCell where
  entry : IndexEntry
  nHeight : Nat
  pprev : Option Nat
  pskip : Option Nat
  deriving DecidableEq, Repr

/-- The cells in the order in which they were allocated. -/
structure IndexMemory where
  cells : List IndexCell := []
  deriving DecidableEq, Repr

namespace IndexMemory

def walk (mem : IndexMemory) (height : Nat) : Nat → Nat → Nat → Run Nat
  | 0, pindexWalk, heightWalk =>
    if heightWalk ≤ height then pure pindexWalk else .error (.undefined "the loop goes on")
  | turns + 1, pindexWalk, heightWalk =>
    if heightWalk ≤ height then pure pindexWalk
    else
      match mem.cells[pindexWalk]? with
      | none => .error (.undefined "*pindexWalk")
      | some cell =>
        let heightSkip := getSkipHeight heightWalk
        let heightSkipPrev := getSkipHeight (heightWalk - 1)
        -- only follow pskip if pprev->pskip is not better than pskip->pprev
        let better := heightSkip == height ||
          decide (height < heightSkip) &&
            !(decide (heightSkipPrev + 2 < heightSkip) && decide (height ≤ heightSkipPrev))
        match cell.pskip.filter fun _ => better with
        | some pskip => walk mem height turns pskip heightSkip
        | none =>
          match cell.pprev with
          | none => .error (.assertion "pindexWalk->pprev")
          | some pprev => walk mem height turns pprev (heightWalk - 1)

/-- `CBlockIndex::GetAncestor`; every turn lowers the height. -/
def getAncestor (mem : IndexMemory) (pindex : Nat) (height : Int) : Run (Option Nat) :=
  match mem.cells[pindex]? with
  | none => .error (.undefined "*this")
  | some cell =>
    if (cell.nHeight : Int) < height || height < 0 then pure none
    else do
      let pindexWalk ← mem.walk height.toNat cell.nHeight pindex cell.nHeight
      pure (some pindexWalk)

/-- Under its parent, as in `AddToBlockIndex`, with `BuildSkip`. -/
def addBlock (mem : IndexMemory) (entry : IndexEntry) (pprev : Option Nat) : Run IndexMemory :=
  match pprev with
  | none => pure ⟨mem.cells ++ [{ entry, nHeight := 0, pprev := none, pskip := none }]⟩
  | some p =>
    match mem.cells[p]? with
    | none => .error (.undefined "*pprev")
    | some parent => do
      let nHeight := parent.nHeight + 1
      let pskip ← mem.getAncestor p (getSkipHeight nHeight)
      pure ⟨mem.cells ++ [{ entry, nHeight, pprev := some p, pskip }]⟩

inductive Built : IndexMemory → Prop
  | empty : Built {}
  | add {mem mem' : IndexMemory} {entry : IndexEntry} {pprev : Option Nat} : Built mem →
      mem.addBlock entry pprev = .ok mem' → Built mem'

/-! ### Following parents -/

/-- The block that is reached by following `pprev` a number of times. -/
def follow (mem : IndexMemory) : Nat → Nat → Option Nat
  | 0, pindex => some pindex
  | n + 1, pindex => do
    let cell ← mem.cells[pindex]?
    let pprev ← cell.pprev
    follow mem n pprev

variable {mem mem' : IndexMemory} {cell : IndexCell}

theorem follow_add (n m : Nat) (pindex : Nat) :
    mem.follow (n + m) pindex = (mem.follow n pindex).bind (mem.follow m) := by
  induction n generalizing pindex with
  | zero => rw [Nat.zero_add, follow, Option.bind_some]
  | succ n ih =>
    rw [Nat.add_right_comm, follow, follow]
    cases mem.cells[pindex]? with
    | none => rfl
    | some cell =>
      cases hp : cell.pprev with
      | none => simp [hp]
      | some p => simpa [hp] using ih p

/-! ### Skip heights -/

theorem invertLowestOne_le (n : Nat) : invertLowestOne n ≤ n - 1 := Nat.and_le_right

theorem getSkipHeight_lt {height : Nat} (h : 0 < height) : getSkipHeight height < height := by
  have hone := invertLowestOne_le height
  have htwo := invertLowestOne_le (height - 1)
  have hthree := invertLowestOne_le (invertLowestOne (height - 1))
  unfold getSkipHeight
  split
  · exact h
  · split <;> omega

/-! ### The invariant -/

/-- Parents are one lower, skip pointers lead to an ancestor. -/
structure CellOk (mem : IndexMemory) (pindex : Nat) (cell : IndexCell) : Prop where
  root : cell.pprev = none → cell.nHeight = 0
  parent : ∀ p, cell.pprev = some p →
    ∃ parent, mem.cells[p]? = some parent ∧ cell.nHeight = parent.nHeight + 1
  skip : ∀ s, cell.pskip = some s →
    mem.follow (cell.nHeight - getSkipHeight cell.nHeight) pindex = some s

def Ok (mem : IndexMemory) : Prop :=
  ∀ pindex cell, mem.cells[pindex]? = some cell → mem.CellOk pindex cell

theorem Ok.follow_height (h : mem.Ok) (n : Nat) :
    ∀ {pindex : Nat} {cell : IndexCell}, mem.cells[pindex]? = some cell → n ≤ cell.nHeight →
      ∃ a ancestor, mem.follow n pindex = some a ∧ mem.cells[a]? = some ancestor ∧
        ancestor.nHeight = cell.nHeight - n := by
  induction n with
  | zero => exact fun {pindex cell} hcell _ => ⟨pindex, cell, rfl, hcell, rfl⟩
  | succ n ih =>
    intro pindex cell hcell hn
    cases hp : cell.pprev with
    | none =>
      have := (h pindex cell hcell).root hp
      omega
    | some p =>
      obtain ⟨parent, hparent, hheight⟩ := (h pindex cell hcell).parent p hp
      obtain ⟨a, ancestor, hfollow, ha, hah⟩ := ih hparent (by omega)
      refine ⟨a, ancestor, ?_, ha, by omega⟩
      rw [follow, hcell]
      simpa [hp] using hfollow

/-- **The walk goes where the parents lead**, whichever pointers it takes. -/
theorem Ok.walk_eq (h : mem.Ok) (height turns : Nat) :
    ∀ {pindex : Nat} {cell : IndexCell}, mem.cells[pindex]? = some cell → height ≤ cell.nHeight →
      cell.nHeight ≤ turns → ∃ a, mem.walk height turns pindex cell.nHeight = .ok a ∧
        mem.follow (cell.nHeight - height) pindex = some a := by
  induction turns with
  | zero =>
    intro pindex cell hcell hle hturns
    have hdiff : cell.nHeight - height = 0 := by omega
    rw [walk, if_pos (by omega), hdiff]
    exact ⟨pindex, rfl, rfl⟩
  | succ turns ih =>
    intro pindex cell hcell hle hturns
    by_cases hstop : cell.nHeight ≤ height
    · have hdiff : cell.nHeight - height = 0 := by omega
      rw [walk, if_pos hstop, hdiff]
      exact ⟨pindex, rfl, rfl⟩
    · have hlower : getSkipHeight cell.nHeight < cell.nHeight := getSkipHeight_lt (by omega)
      rw [walk, if_neg hstop, hcell]
      dsimp only
      split
      · next s hs =>
        -- the skip pointer is taken only if it does not go below the height
        obtain ⟨hskip, hbetter⟩ := Option.filter_eq_some_iff.mp hs
        have hheight : height ≤ getSkipHeight cell.nHeight := by
          simp only [Bool.or_eq_true, beq_iff_eq, Bool.and_eq_true, decide_eq_true_eq] at hbetter
          omega
        have hfollow := (h pindex cell hcell).skip s hskip
        obtain ⟨a, ancestor, ha, hacell, hah⟩ :=
          h.follow_height (cell.nHeight - getSkipHeight cell.nHeight) hcell (by omega)
        rw [hfollow] at ha
        cases ha
        have hskipHeight : ancestor.nHeight = getSkipHeight cell.nHeight := by omega
        obtain ⟨b, hwalk, hb⟩ := ih hacell (by omega) (by omega)
        rw [hskipHeight] at hwalk hb
        refine ⟨b, hwalk, ?_⟩
        have hsplit : cell.nHeight - height =
            (cell.nHeight - getSkipHeight cell.nHeight) + (getSkipHeight cell.nHeight - height) := by
          omega
        rw [hsplit, follow_add, hfollow, Option.bind_some, hb]
      · split
        · next hp =>
          have := (h pindex cell hcell).root hp
          omega
        · next p hp =>
          obtain ⟨parent, hparent, hph⟩ := (h pindex cell hcell).parent p hp
          obtain ⟨b, hwalk, hb⟩ := ih hparent (by omega) (by omega)
          have hpred : cell.nHeight - 1 = parent.nHeight := by omega
          refine ⟨b, by rw [hpred]; exact hwalk, ?_⟩
          have hsplit : cell.nHeight - height = (parent.nHeight - height) + 1 := by omega
          rw [hsplit, follow, hcell]
          simpa [hp] using hb

/-! ### Memories that the node builds -/

variable {pindex : Nat} {b : CBlockIndex}

theorem Ok.getAncestor_eq (h : mem.Ok) (hcell : mem.cells[pindex]? = some cell)
    (height : Int) : mem.getAncestor pindex height =
      .ok (if height < 0 ∨ (cell.nHeight : Int) < height then none
        else mem.follow (cell.nHeight - height.toNat) pindex) := by
  unfold getAncestor
  rw [hcell]
  dsimp only
  by_cases hout : height < 0 ∨ (cell.nHeight : Int) < height
  · rw [if_pos hout, if_pos (by simpa [or_comm] using hout)]
    rfl
  · rw [if_neg hout, if_neg (by simpa [or_comm] using hout)]
    obtain ⟨a, hwalk, hfollow⟩ := h.walk_eq height.toNat cell.nHeight hcell (by omega)
      (le_refl _)
    rw [hwalk, hfollow]
    rfl

theorem follow_append (h : mem.Ok) (new : IndexCell) (n : Nat) :
    ∀ {pindex : Nat}, pindex < mem.cells.length →
      (⟨mem.cells ++ [new]⟩ : IndexMemory).follow n pindex = mem.follow n pindex := by
  induction n with
  | zero => exact fun _ => rfl
  | succ n ih =>
    intro pindex hlt
    rw [follow, follow, List.getElem?_append_left hlt]
    cases hcell : mem.cells[pindex]? with
    | none => rfl
    | some cell =>
      cases hp : cell.pprev with
      | none => simp [hp]
      | some p =>
        obtain ⟨parent, hparent, -⟩ := (h pindex cell hcell).parent p hp
        simpa [hp] using ih (List.getElem?_eq_some_iff.mp hparent).1

theorem Ok.append (h : mem.Ok) {new : IndexCell} (hroot : new.pprev = none → new.nHeight = 0)
    (hparent : ∀ p, new.pprev = some p →
      ∃ parent, mem.cells[p]? = some parent ∧ new.nHeight = parent.nHeight + 1 ∧
        ∀ s, new.pskip = some s →
          mem.follow (parent.nHeight - getSkipHeight new.nHeight) p = some s)
    (hskip : new.pprev = none → new.pskip = none) :
    (⟨mem.cells ++ [new]⟩ : IndexMemory).Ok := by
  intro pindex cell hcell
  have hold : ∀ (p : Nat) (parent : IndexCell), mem.cells[p]? = some parent →
      (mem.cells ++ [new])[p]? = some parent := by
    intro p parent hp
    rw [List.getElem?_append_left (List.getElem?_eq_some_iff.mp hp).1]
    exact hp
  by_cases hlt : pindex < mem.cells.length
  · rw [List.getElem?_append_left hlt] at hcell
    obtain ⟨hroot, hparent, hskip⟩ := h pindex cell hcell
    refine ⟨hroot, ?_, ?_⟩
    · intro p hp
      obtain ⟨parent, hmem, hheight⟩ := hparent p hp
      exact ⟨parent, hold p parent hmem, hheight⟩
    · intro s hs
      rw [follow_append h new _ hlt]
      exact hskip s hs
  · -- the new cell
    have hlast : pindex = mem.cells.length ∧ cell = new := by
      rw [List.getElem?_append_right (by omega)] at hcell
      obtain ⟨hidx, hget⟩ := List.getElem?_eq_some_iff.mp hcell
      rw [List.length_singleton] at hidx
      refine ⟨by omega, ?_⟩
      rw [← hget]
      exact List.getElem_singleton (by simpa using hidx)
    obtain ⟨rfl, rfl⟩ := hlast
    refine ⟨hroot, ?_, ?_⟩
    · intro p hp
      obtain ⟨parent, hmem, hheight, -⟩ := hparent p hp
      exact ⟨parent, hold p parent hmem, hheight⟩
    · intro s hs
      cases hp : cell.pprev with
      | none =>
        rw [hskip hp] at hs
        cases hs
      | some p =>
        obtain ⟨parent, hmem, hheight, hwalk⟩ := hparent p hp
        have hlower : getSkipHeight cell.nHeight < cell.nHeight := getSkipHeight_lt (by omega)
        have hsplit : cell.nHeight - getSkipHeight cell.nHeight =
            (parent.nHeight - getSkipHeight cell.nHeight) + 1 := by omega
        rw [hsplit, follow, hcell]
        simp only [Option.bind_eq_bind, Option.bind_some, hp]
        rw [follow_append h cell _ (List.getElem?_eq_some_iff.mp hmem).1]
        exact hwalk s hs

theorem Ok.addBlock (h : mem.Ok) (entry : IndexEntry) (pprev : Option Nat)
    (hpprev : ∀ p, pprev = some p → p < mem.cells.length) :
    ∃ mem', mem.addBlock entry pprev = .ok mem' ∧ mem'.Ok := by
  cases pprev with
  | none =>
    refine ⟨_, rfl, h.append (fun _ => rfl) ?_ fun _ => rfl⟩
    intro p hp
    cases hp
  | some p =>
    obtain ⟨parent, hparent⟩ : ∃ parent, mem.cells[p]? = some parent :=
      ⟨_, List.getElem?_eq_getElem (hpprev p rfl)⟩
    have hlower : getSkipHeight (parent.nHeight + 1) < parent.nHeight + 1 :=
      getSkipHeight_lt (by omega)
    have hskip := h.getAncestor_eq hparent (getSkipHeight (parent.nHeight + 1) : Nat)
    rw [if_neg (by omega), Int.toNat_natCast] at hskip
    unfold IndexMemory.addBlock
    dsimp only
    rw [hparent]
    dsimp only
    rw [hskip, ok_bind]
    refine ⟨_, rfl, h.append ?_ ?_ ?_⟩
    · intro hp
      cases hp
    · intro q hq
      cases hq
      exact ⟨parent, hparent, rfl, fun s hs => hs⟩
    · intro hp
      cases hp

theorem Built.ok (h : Built mem) : mem.Ok := by
  induction h with
  | empty =>
    intro pindex cell hcell
    cases hcell
  | @add mem mem' entry pprev _ hadd ih =>
    have hpprev : ∀ p, pprev = some p → p < mem.cells.length := by
      rintro p rfl
      unfold addBlock at hadd
      dsimp only at hadd
      cases hparent : mem.cells[p]? with
      | none =>
        rw [hparent] at hadd
        cases hadd
      | some parent => exact (List.getElem?_eq_some_iff.mp hparent).1
    obtain ⟨_, hok, hmem'⟩ := ih.addBlock entry pprev hpprev
    cases hok.symm.trans hadd
    exact hmem'

/-! ### Cells and blocks -/

inductive Shows (mem : IndexMemory) : Nat → CBlockIndex → Prop
  | root {pindex : Nat} {cell : IndexCell} : mem.cells[pindex]? = some cell → cell.pprev = none →
      Shows mem pindex ⟨cell.entry, []⟩
  | child {pindex p : Nat} {cell : IndexCell} {b : CBlockIndex} : mem.cells[pindex]? = some cell →
      cell.pprev = some p → Shows mem p b → Shows mem pindex ⟨cell.entry, b.path⟩

theorem Ok.exists_shows (h : mem.Ok) (hcell : mem.cells[pindex]? = some cell) :
    ∃ b, Shows mem pindex b := by
  induction hn : cell.nHeight using Nat.strong_induction_on generalizing pindex cell with
  | _ n ih =>
    cases hp : cell.pprev with
    | none => exact ⟨_, .root hcell hp⟩
    | some p =>
      obtain ⟨parent, hparent, hheight⟩ := (h pindex cell hcell).parent p hp
      obtain ⟨b, hb⟩ := ih parent.nHeight (by omega) hparent rfl
      exact ⟨_, .child hcell hp hb⟩

theorem Ok.shows_nHeight (h : mem.Ok) (hb : Shows mem pindex b)
    (hcell : mem.cells[pindex]? = some cell) : cell.nHeight = b.nHeight := by
  induction hb generalizing cell with
  | root hroot hp =>
    cases hcell.symm.trans hroot
    exact (h _ _ hcell).root hp
  | @child pindex p cell' b hchild hp _ ih =>
    cases hcell.symm.trans hchild
    obtain ⟨parent, hparent, hheight⟩ := (h _ _ hcell).parent p hp
    rw [hheight, ih hparent]
    exact (CBlockIndex.length_path b).symm

theorem Shows.follow {n : Nat} : ∀ {pindex a : Nat} {b : CBlockIndex}, Shows mem pindex b →
    mem.follow n pindex = some a → ∃ b', Shows mem a b' ∧ b' ≤ b ∧ b.nHeight = b'.nHeight + n := by
  induction n with
  | zero =>
    intro pindex a b hb hfollow
    cases hfollow
    exact ⟨b, hb, le_refl b, rfl⟩
  | succ n ih =>
    intro pindex a b hb hfollow
    cases hb with
    | root hcell hp =>
      rw [IndexMemory.follow, hcell] at hfollow
      simp [hp] at hfollow
    | @child _ p cell b hcell hp hb =>
      rw [IndexMemory.follow, hcell] at hfollow
      simp only [Option.bind_eq_bind, Option.bind_some, hp] at hfollow
      obtain ⟨b', hb', hle, hheight⟩ := ih hb hfollow
      have hparent : (⟨cell.entry, b.path⟩ : CBlockIndex).pprev = some b :=
        CBlockIndex.pprev_eq_some.mpr rfl
      refine ⟨b', hb', hle.trans (CBlockIndex.pprev_le hparent), ?_⟩
      rw [CBlockIndex.nHeight_pprev hparent, hheight]
      omega

def FindsAncestors (mem : IndexMemory) (pindex : Nat) (b : CBlockIndex) : Prop :=
  ∀ height : Nat, (mem.getAncestor pindex height = .ok none ∧ b.getAncestor height = none) ∨
    ∃ a b', mem.getAncestor pindex height = .ok (some a) ∧ Shows mem a b' ∧
      b.getAncestor height = some b'

/-- **The pointers refine the paths**: every entry shows a block with its ancestors, and
    `GetAncestor` leads to the entries that show these. -/
theorem getAncestor_index (hbuilt : Built mem) (hcell : mem.cells[pindex]? = some cell) :
    ∃ b, Shows mem pindex b ∧ FindsAncestors mem pindex b := by
  obtain ⟨b, hb⟩ := hbuilt.ok.exists_shows hcell
  refine ⟨b, hb, fun height => ?_⟩
  have hheight := hbuilt.ok.shows_nHeight hb hcell
  rw [hbuilt.ok.getAncestor_eq hcell]
  by_cases hout : cell.nHeight < height
  · left
    refine ⟨by rw [if_pos (by omega)], ?_⟩
    rw [CBlockIndex.getAncestor, if_pos (by omega)]
  · right
    obtain ⟨a, -, hfollow, -⟩ := hbuilt.ok.follow_height (cell.nHeight - height) hcell (by omega)
    obtain ⟨b', hb', hle, hb'h⟩ := hb.follow hfollow
    have hat : height = b'.nHeight := by omega
    refine ⟨a, b', ?_, hb', ?_⟩
    · rw [if_neg (by omega), Int.toNat_natCast, hfollow]
    · rw [hat]
      exact CBlockIndex.getAncestor_eq_some_iff.mpr hle

/-- **Skip pointers change nothing**: `GetAncestor` ends without an assertion at the block that the
    parent pointers lead to, or null outside of the heights. -/
theorem getAncestor_eq_follow (mem : IndexMemory) (hbuilt : Built mem) (pindex : Nat)
    (cell : IndexCell) (hcell : mem.cells[pindex]? = some cell) (height : Int) :
    (height < 0 ∨ (cell.nHeight : Int) < height → mem.getAncestor pindex height = .ok none) ∧
    (0 ≤ height → height ≤ cell.nHeight → ∃ a, mem.getAncestor pindex height = .ok (some a) ∧
      mem.follow (cell.nHeight - height.toNat) pindex = some a) := by
  have hwalk := hbuilt.ok.getAncestor_eq hcell height
  constructor
  · intro hout
    rw [hwalk, if_pos hout]
  · intro hlow hhigh
    obtain ⟨a, -, hfollow, -⟩ :=
      hbuilt.ok.follow_height (cell.nHeight - height.toNat) hcell (by omega)
    rw [if_neg (by omega), hfollow] at hwalk
    exact ⟨a, hwalk, hfollow⟩

end IndexMemory

namespace Regtest

/-- Four blocks in a row, and another one on the second of them. -/
def forkedMemory : IndexMemory where
  cells := [
    { entry := ⟨0, 0⟩, nHeight := 0, pprev := none, pskip := none },
    { entry := ⟨1, 0⟩, nHeight := 1, pprev := some 0, pskip := some 0 },
    { entry := ⟨2, 0⟩, nHeight := 2, pprev := some 1, pskip := some 0 },
    { entry := ⟨3, 0⟩, nHeight := 3, pprev := some 2, pskip := some 1 },
    { entry := ⟨4, 0⟩, nHeight := 2, pprev := some 1, pskip := some 0 }]

theorem forkedMemory_built : IndexMemory.Built forkedMemory := by
  have hzero := @IndexMemory.Built.add {} _ ⟨0, 0⟩ none .empty rfl
  have hone := @IndexMemory.Built.add _ _ ⟨1, 0⟩ (some 0) hzero rfl
  have htwo := @IndexMemory.Built.add _ _ ⟨2, 0⟩ (some 1) hone rfl
  have hthree := @IndexMemory.Built.add _ _ ⟨3, 0⟩ (some 2) htwo rfl
  exact @IndexMemory.Built.add _ _ ⟨4, 0⟩ (some 1) hthree rfl

theorem forkedMemory_index :
    ∃ b, IndexMemory.Shows forkedMemory 3 b ∧ IndexMemory.FindsAncestors forkedMemory 3 b :=
  IndexMemory.getAncestor_index forkedMemory_built rfl

theorem forkedMemory_getAncestor :
    (∃ a, forkedMemory.getAncestor 3 1 = .ok (some a) ∧ forkedMemory.follow 2 3 = some a) ∧
      forkedMemory.getAncestor 4 3 = .ok none :=
  ⟨(IndexMemory.getAncestor_eq_follow forkedMemory forkedMemory_built 3 _ rfl 1).2 (by decide)
      (by decide),
    (IndexMemory.getAncestor_eq_follow forkedMemory forkedMemory_built 4 _ rfl 3).1 (by decide)⟩

end Regtest

end VBitcoin
