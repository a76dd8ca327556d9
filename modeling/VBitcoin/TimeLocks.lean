import VBitcoin.ConnectBlock

/-!
**Lock times in scripts and in blocks** — `CheckLockTime` and `CheckSequence`, which a script
runs against the fields of the spending transaction, and the rules of a block that give these
fields their meaning, `IsFinalTx` and `SequenceLocks`: what a script asks for is what the
block grants.
-/

namespace VBitcoin

/-! ### Script numbers -/

structure CScriptNum where
  m_value : Int64
  deriving DecidableEq, Repr

namespace CScriptNum

def toInt (n : CScriptNum) : Int := n.m_value.toInt

def and (n : CScriptNum) (rhs : Int64) : CScriptNum := ⟨n.m_value &&& rhs⟩

end CScriptNum

/-! ### `CheckLockTime` and `CheckSequence` -/

def checkLockTime (txTo : CTransaction) (nIn : Nat) (nLockTime : CScriptNum) : Run Bool :=
  let txLockTime : Int := txTo.nLockTime.toNat
  let threshold : Int := LOCKTIME_THRESHOLD
  if !((txLockTime < threshold && nLockTime.toInt < threshold) ||
      (threshold ≤ txLockTime && threshold ≤ nLockTime.toInt)) then pure false
  else if txLockTime < nLockTime.toInt then pure false
  else
    match txTo.vin[nIn]? with
    | none => .error (.undefined "txTo->vin[nIn]")
    | some txin => pure (!(txin.nSequence == SEQUENCE_FINAL))

def SEQUENCE_LOCKTIME_DISABLE_FLAG : Int64 := 0x80000000
def SEQUENCE_LOCKTIME_TYPE_FLAG : Int64 := 0x400000
def SEQUENCE_LOCKTIME_MASK : Int64 := 0xffff

def checkSequence (txTo : CTransaction) (nIn : Nat) (nSequence : CScriptNum) : Run Bool :=
  match txTo.vin[nIn]? with
  | none => .error (.undefined "txTo->vin[nIn]")
  | some txin =>
    let txToSequence : Int64 := txin.nSequence.toUInt64.toInt64
    if txTo.nVersion.toUInt32.toNat < 2 then pure false
    else if txToSequence &&& SEQUENCE_LOCKTIME_DISABLE_FLAG ≠ 0 then pure false
    else
      let nLockTimeMask := SEQUENCE_LOCKTIME_TYPE_FLAG ||| SEQUENCE_LOCKTIME_MASK
      let txToSequenceMasked := (txToSequence &&& nLockTimeMask).toInt
      let nSequenceMasked := (nSequence.and nLockTimeMask).toInt
      let typeFlag := SEQUENCE_LOCKTIME_TYPE_FLAG.toInt
      if !((txToSequenceMasked < typeFlag && nSequenceMasked < typeFlag) ||
          (typeFlag ≤ txToSequenceMasked && typeFlag ≤ nSequenceMasked)) then pure false
      else pure (!decide (txToSequenceMasked < nSequenceMasked))

/-! ### The bits of a sequence number -/

/-- The bits of a script number, which `&` reads in two's complement. -/
def CScriptNum.bits (n : CScriptNum) : Nat := n.m_value.toBitVec.toNat

theorem toNat_toInt64 (n : UInt32) : n.toUInt64.toInt64.toBitVec.toNat = n.toNat := by
  rw [UInt64.toBitVec_toInt64, UInt64.toNat_toBitVec, UInt32.toNat_toUInt64]

theorem toInt_and (x mask : Int64) (hmask : mask.toBitVec.toNat < 2 ^ 63) :
    (x &&& mask).toInt = (x.toBitVec.toNat &&& mask.toBitVec.toNat : Nat) := by
  have hnat : (x &&& mask).toBitVec.toNat = x.toBitVec.toNat &&& mask.toBitVec.toNat := by
    rw [Int64.toBitVec_and, BitVec.toNat_and]
  have hle : x.toBitVec.toNat &&& mask.toBitVec.toNat ≤ mask.toBitVec.toNat := Nat.and_le_right
  rw [← Int64.toInt_toBitVec, BitVec.toInt_eq_toNat_of_lt, hnat]
  rw [hnat]
  omega

theorem and_flag_eq_zero_iff (x flag : Int64) {i : Nat} (hi : i < 63)
    (hflag : flag.toBitVec.toNat = 2 ^ i) :
    x &&& flag = 0 ↔ x.toBitVec.toNat.testBit i = false := by
  have hsmall : flag.toBitVec.toNat < 2 ^ 63 := by
    rw [hflag]
    exact Nat.pow_lt_pow_right (by omega) hi
  rw [← Int64.toInt_inj, toInt_and x flag hsmall, hflag, Nat.and_two_pow]
  cases x.toBitVec.toNat.testBit i
  · simp
  · have hpos := Nat.two_pow_pos i
    rw [Bool.toNat_true, Nat.one_mul, Int64.toInt_zero]
    simp only [Bool.true_eq_false, iff_false]
    omega

theorem toInt_and_mask (x : Int64) :
    (x &&& SEQUENCE_LOCKTIME_MASK).toInt = (x.toBitVec.toNat % 2 ^ 16 : Nat) := by
  rw [toInt_and x SEQUENCE_LOCKTIME_MASK (by decide)]
  exact congrArg Nat.cast (Nat.and_two_pow_sub_one_eq_mod _ 16)

theorem toInt_and_lockTimeMask (x : Int64) :
    (x &&& (SEQUENCE_LOCKTIME_TYPE_FLAG ||| SEQUENCE_LOCKTIME_MASK)).toInt =
      ((x.toBitVec.toNat.testBit 22).toNat * 2 ^ 22 + x.toBitVec.toNat % 2 ^ 16 : Nat) := by
  have hvalue : x.toBitVec.toNat % 2 ^ 16 < 2 ^ 22 := by omega
  have hmask : (SEQUENCE_LOCKTIME_TYPE_FLAG ||| SEQUENCE_LOCKTIME_MASK).toBitVec.toNat =
      2 ^ 22 ||| (2 ^ 16 - 1) := rfl
  rw [toInt_and x _ (by decide), hmask, Nat.and_or_distrib_left, Nat.and_two_pow,
    Nat.and_two_pow_sub_one_eq_mod, Nat.mul_comm, Nat.two_pow_add_eq_or_of_lt hvalue]

theorem sameType_and_le {s t : Bool} {x y : Nat} (hx : x < 2 ^ 22) (hy : y < 2 ^ 22)
    (hsame : (s.toNat * 2 ^ 22 + x < 2 ^ 22 ∧ t.toNat * 2 ^ 22 + y < 2 ^ 22) ∨
      (2 ^ 22 ≤ s.toNat * 2 ^ 22 + x ∧ 2 ^ 22 ≤ t.toNat * 2 ^ 22 + y))
    (hle : t.toNat * 2 ^ 22 + y ≤ s.toNat * 2 ^ 22 + x) : s = t ∧ y ≤ x := by
  cases s <;> cases t <;> simp only [Bool.toNat_true, Bool.toNat_false] at hsame hle <;>
    refine ⟨?_, by omega⟩ <;> first | rfl | omega

variable {tx : CTransaction} {nIn : Nat} {n : CScriptNum}

variable {txin : CTxIn} {prevHeights : List Nat}

/-- The input's own number is enabled, of the same type, and asks for as much. -/
theorem checkSequence_eq_true
    (hin : tx.vin[nIn]? = some txin) (h : checkSequence tx nIn n = .ok true) :
    2 ≤ tx.nVersion.toUInt32.toNat ∧ txin.nSequence.toNat.testBit 31 = false ∧
      txin.nSequence.toNat.testBit 22 = n.bits.testBit 22 ∧
      n.bits % 2 ^ 16 ≤ txin.nSequence.toNat % 2 ^ 16 := by
  unfold checkSequence at h
  rw [hin] at h
  dsimp only [CScriptNum.and, CScriptNum.toInt] at h
  rw [toInt_and_lockTimeMask, toInt_and_lockTimeMask, toNat_toInt64, ← CScriptNum.bits] at h
  have htype : SEQUENCE_LOCKTIME_TYPE_FLAG.toInt = 2 ^ 22 := rfl
  rw [htype] at h
  split at h
  · cases h
  · rename_i hversion
    split at h
    · cases h
    · rename_i hdisable
      rw [not_not, and_flag_eq_zero_iff _ _ (i := 31) (by omega) rfl, toNat_toInt64] at hdisable
      refine ⟨by omega, hdisable, ?_⟩
      split at h
      · cases h
      · rename_i hsame
        simp only [pure_eq_ok_iff, Bool.not_eq_true', decide_eq_false_iff_not, Int.not_lt,
          Int.ofNat_le] at h
        apply sameType_and_le (by omega) (by omega) ?_ h
        simp only [Bool.not_eq_true', Bool.not_eq_false, Bool.or_eq_true, Bool.and_eq_true,
          decide_eq_true_eq] at hsame
        omega

/-! ### `SequenceLocks` -/

/-- Demands on the last invalid height and time. -/
def LockedBy (pindex : CBlockIndex) (locks : Int × Int) (input : CTxIn × Nat) : Prop :=
  input.1.nSequence.toNat.testBit 31 = false →
    (input.1.nSequence.toNat.testBit 22 = false →
      (input.2 : Int) + (input.1.nSequence.toNat % 2 ^ 16 : Nat) - 1 ≤ locks.1) ∧
    (input.1.nSequence.toNat.testBit 22 = true →
      ∃ ancestor, pindex.getAncestor (input.2 - 1) = some ancestor ∧
        (ancestor.getMedianTimePast : Int) + (input.1.nSequence.toNat % 2 ^ 16 : Nat) * 2 ^ 9 - 1 ≤
          locks.2)

variable {pindex : CBlockIndex} {locks locks' : Int × Int} {input : CTxIn × Nat}

theorem LockedBy.mono (h : LockedBy pindex locks input) (hle : locks ≤ locks') :
    LockedBy pindex locks' input := by
  intro henabled
  obtain ⟨hheight, htime⟩ := h henabled
  constructor
  · exact fun hblock => (hheight hblock).trans hle.1
  · intro hseconds
    obtain ⟨ancestor, hancestor, hbound⟩ := htime hseconds
    exact ⟨ancestor, hancestor, hbound.trans hle.2⟩

theorem sequenceLockStep_spec (h : sequenceLockStep pindex locks input = .ok locks') :
    locks ≤ locks' ∧ LockedBy pindex locks' input := by
  unfold sequenceLockStep at h
  dsimp only at h
  simp only [LockedBy, Nat.testBit_eq_decide_div_mod_eq, decide_eq_false_iff_not,
    decide_eq_true_eq]
  split at h
  · rename_i hdisabled
    cases h
    exact ⟨le_refl _, fun henabled => absurd hdisabled henabled⟩
  · split at h
    · rename_i htime
      split at h
      · cases h
      · rename_i ancestor hancestor
        cases h
        refine ⟨⟨le_refl _, le_max_left _ _⟩, fun _ => ⟨fun hblock => absurd htime hblock, ?_⟩⟩
        exact fun _ => ⟨ancestor, hancestor, le_max_right _ _⟩
    · rename_i hblock
      cases h
      refine ⟨⟨le_max_left _ _, le_refl _⟩, fun _ => ⟨fun _ => le_max_right _ _, ?_⟩⟩
      exact fun htime => absurd htime hblock

theorem sequenceLocks_eq_true (hversion : 2 ≤ tx.nVersion.toUInt32.toNat)
    (h : sequenceLocks tx true prevHeights pindex = .ok true) :
    ∃ locks pprev, pindex.pprev = some pprev ∧
      (∀ input ∈ tx.vin.zip prevHeights, LockedBy pindex locks input) ∧
      locks.1 < pindex.nHeight ∧ locks.2 < pprev.getMedianTimePast := by
  unfold sequenceLocks at h
  simp only [hversion, decide_true, Bool.and_self, if_true, bind_eq_ok] at h
  obtain ⟨locks, hlocks, hfinal⟩ := h
  split at hfinal
  · cases hfinal
  · rename_i pprev hpprev
    simp only [pure_eq_ok_iff, Bool.not_eq_true', Bool.or_eq_false_iff, decide_eq_false_iff_not,
      Int.not_le] at hfinal
    refine ⟨locks, pprev, hpprev, ?_, hfinal⟩
    -- invariant of the loop: every input is still to come or its demand is met
    have hall := foldlM_induction
      (fun rest s => ∀ input ∈ tx.vin.zip prevHeights, input ∈ rest ∨ LockedBy pindex s input)
      (fun i rest s s' hI hbody input hinput => by
        obtain ⟨hle, hlocked⟩ := sequenceLockStep_spec hbody
        rcases hI input hinput with hmem | hmet
        · rcases List.mem_cons.mp hmem with rfl | hrest
          · exact Or.inr hlocked
          · exact Or.inl hrest
        · exact Or.inr (hmet.mono hle))
      (fun input hinput => Or.inl hinput) hlocks
    intro input hinput
    exact (hall input hinput).resolve_left (List.not_mem_nil)

/-! ### Locks are binding -/

/-- `IsFinalTx` accepts a zero `nLockTime` before it looks at the height. -/
theorem lockTime_binding {h t : Nat}
    (hcheck : checkLockTime tx nIn n = .ok true) (hfinal : isFinalTx tx h t = true) :
    (n.toInt < LOCKTIME_THRESHOLD → n.toInt < h ∨ (n.toInt ≤ 0 ∧ h = 0)) ∧
      (LOCKTIME_THRESHOLD ≤ n.toInt → n.toInt < t) := by
  unfold checkLockTime at hcheck
  dsimp only at hcheck
  split at hcheck
  · cases hcheck
  · rename_i hsame
    split at hcheck
    · cases hcheck
    · rename_i hle
      split at hcheck
      · cases hcheck
      · rename_i txin hin
        simp only [pure_eq_ok_iff, Bool.not_eq_true', beq_eq_false_iff_ne] at hcheck
        -- this input is not final, so the lock time itself has been passed
        have hnotfinal : (tx.vin.all fun txin => txin.nSequence == SEQUENCE_FINAL) = false := by
          apply List.all_eq_false.mpr
          exact ⟨txin, List.mem_of_getElem? hin, by simpa using hcheck⟩
        simp only [isFinalTx, hnotfinal, Bool.or_false, Bool.or_eq_true, beq_iff_eq,
          decide_eq_true_eq] at hfinal
        simp only [Bool.not_eq_true', Bool.not_eq_false, Bool.or_eq_true, Bool.and_eq_true,
          decide_eq_true_eq] at hsame
        rcases hfinal with hzero | hpassed
        · rw [hzero] at hle hsame
          simp only [LOCKTIME_THRESHOLD, UInt32.toNat_zero] at hle hsame ⊢
          omega
        · rcases hsame with ⟨hheight, hn⟩ | ⟨htime, hn⟩
          · rw [if_pos (by omega)] at hpassed
            omega
          · rw [if_neg (by omega)] at hpassed
            omega

theorem sequence_binding {c : Nat}
    (hin : tx.vin[nIn]? = some txin) (hc : prevHeights[nIn]? = some c)
    (hcheck : checkSequence tx nIn n = .ok true)
    (hlocks : sequenceLocks tx true prevHeights pindex = .ok true) :
    (n.bits.testBit 22 = false → (c : Int) + (n.bits % 2 ^ 16 : Nat) ≤ pindex.nHeight) ∧
      (n.bits.testBit 22 = true → ∃ pprev ancestor, pindex.pprev = some pprev ∧
        pindex.getAncestor (c - 1) = some ancestor ∧
        (ancestor.getMedianTimePast : Int) + 512 * (n.bits % 2 ^ 16 : Nat) ≤
          pprev.getMedianTimePast) := by
  obtain ⟨hversion, henabled, htype, hvalue⟩ := checkSequence_eq_true hin hcheck
  obtain ⟨locks, pprev, hpprev, hall, hheight, htime⟩ := sequenceLocks_eq_true hversion hlocks
  have hmem : (txin, c) ∈ tx.vin.zip prevHeights := by
    apply List.mem_of_getElem? (i := nIn)
    rw [List.getElem?_zip_eq_some]
    exact ⟨hin, hc⟩
  obtain ⟨hblocks, hseconds⟩ := hall (txin, c) hmem henabled
  rw [htype] at hblocks hseconds
  constructor
  · intro hblock
    have := hblocks hblock
    dsimp only at this
    omega
  · intro hsec
    obtain ⟨ancestor, hancestor, hbound⟩ := hseconds hsec
    refine ⟨pprev, ancestor, hpprev, hancestor, ?_⟩
    dsimp only at hbound
    omega

/-- Locks that a script checks are binding in a block, as a height or a time, in blocks or units of
    512 seconds; at genesis a lock of 0 is not below the height. -/
theorem script_locks_binding (tx : CTransaction) (nIn : Nat) (n : CScriptNum) :
    (∀ h t : Nat, 0 ≤ n.toInt → checkLockTime tx nIn n = .ok true → isFinalTx tx h t = true →
      (n.toInt < LOCKTIME_THRESHOLD → n.toInt < h ∨ (n.toInt = 0 ∧ h = 0)) ∧
      (LOCKTIME_THRESHOLD ≤ n.toInt → n.toInt < t)) ∧
    ∀ (prevHeights : List Nat) (c : Nat) (block : CBlockIndex), prevHeights[nIn]? = some c →
      checkSequence tx nIn n = .ok true → sequenceLocks tx true prevHeights block = .ok true →
      ((n.and SEQUENCE_LOCKTIME_TYPE_FLAG).toInt = 0 →
        c + (n.and SEQUENCE_LOCKTIME_MASK).toInt ≤ block.nHeight) ∧
      ((n.and SEQUENCE_LOCKTIME_TYPE_FLAG).toInt ≠ 0 → ∃ pprev ancestor,
        block.pprev = some pprev ∧ block.getAncestor (max (c - 1) 0) = some ancestor ∧
        ancestor.getMedianTimePast + 512 * (n.and SEQUENCE_LOCKTIME_MASK).toInt ≤
          pprev.getMedianTimePast) := by
  constructor
  · intro h t hpos hcheck hfinal
    obtain ⟨hheight, htime⟩ := lockTime_binding hcheck hfinal
    refine ⟨fun hsmall => ?_, htime⟩
    rcases hheight hsmall with hlt | ⟨hzero, hgenesis⟩
    · exact Or.inl hlt
    · exact Or.inr ⟨hzero.antisymm hpos, hgenesis⟩
  · intro prevHeights c block hc hcheck hlocks
    obtain ⟨txin, hin⟩ : ∃ txin, tx.vin[nIn]? = some txin := by
      cases hin : tx.vin[nIn]? with
      | some txin => exact ⟨txin, rfl⟩
      | none =>
        rw [checkSequence, hin] at hcheck
        cases hcheck
    obtain ⟨hblocks, hseconds⟩ := sequence_binding hin hc hcheck hlocks
    have hflag : (n.and SEQUENCE_LOCKTIME_TYPE_FLAG).toInt = 0 ↔ n.bits.testBit 22 = false :=
      Int64.toInt_inj.trans
        (and_flag_eq_zero_iff n.m_value SEQUENCE_LOCKTIME_TYPE_FLAG (i := 22) (by omega) rfl)
    have hmask : (n.and SEQUENCE_LOCKTIME_MASK).toInt = (n.bits % 2 ^ 16 : Nat) :=
      toInt_and_mask n.m_value
    rw [hmask, Nat.max_zero]
    constructor
    · exact fun hclear => hblocks (hflag.mp hclear)
    · exact fun hset => hseconds ((Bool.not_eq_false _).mp (mt hflag.mpr hset))

namespace Regtest

def lockedTx : CTransaction where
  vin := [{ prevout := ⟨7, 0⟩, scriptSig := [], nSequence := 2 }]
  vout := []
  nLockTime := 5

/-- The block at height 6, above six blocks without time. -/
def sixthBlock : CBlockIndex :=
  ⟨⟨6, 0⟩, [⟨5, 0⟩, ⟨4, 0⟩, ⟨3, 0⟩, ⟨2, 0⟩, ⟨1, 0⟩, ⟨0, 0⟩]⟩

theorem lockedTx_bound :
    ((⟨5⟩ : CScriptNum).toInt < (6 : Nat) ∨ ((⟨5⟩ : CScriptNum).toInt = 0 ∧ 6 = 0)) ∧
      (4 : Nat) + ((⟨2⟩ : CScriptNum).and SEQUENCE_LOCKTIME_MASK).toInt ≤ sixthBlock.nHeight :=
  ⟨((script_locks_binding lockedTx 0 ⟨5⟩).1 6 0 (by decide) (by decide) (by decide)).1 (by decide),
    ((script_locks_binding lockedTx 0 ⟨2⟩).2 [4] 4 sixthBlock rfl (by decide) (by decide)).1
      (by decide)⟩

/-- Final at height 0 too, where a lock of 0 is satisfied. -/
theorem lock_of_zero_at_genesis :
    (0 : Int) ≤ (⟨0⟩ : CScriptNum).toInt ∧
      checkLockTime { lockedTx with nLockTime := 0 } 0 ⟨0⟩ = .ok true ∧
      isFinalTx { lockedTx with nLockTime := 0 } 0 0 = true ∧
      (⟨0⟩ : CScriptNum).toInt < LOCKTIME_THRESHOLD ∧ ¬ (⟨0⟩ : CScriptNum).toInt < (0 : Nat) := by
  refine ⟨?_, ?_, ?_, ?_, ?_⟩ <;> decide

end Regtest

end VBitcoin
