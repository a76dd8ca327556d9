import VBitcoin.AcceptHeader
import VBitcoin.ArithUint256

/-!
**The compact form of a target, and the work of a block** (`SetCompact`, `GetCompact` and
`GetBlockProof`) — `GetCompact` keeps the leading three bytes of a number, or two when the
third would take the place of the sign; the compact forms are ordered as the numbers are, and
a number that `SetCompact` read is written without loss.
-/

namespace VBitcoin.ArithUint256

/-! ### The bytes that are kept -/

variable (a : UInt256)

def bytes : Nat := (bits a + 7) / 8

def keptBytes : Nat := if a.toNat.testBit (8 * bytes a - 1) then 2 else 3

/-- A number with all but the leading bytes that fit in 23 bits cleared. -/
def rounded : Nat :=
  a.toNat / 2 ^ (8 * (bytes a - keptBytes a)) * 2 ^ (8 * (bytes a - keptBytes a))

theorem testBit_bits {a : UInt256} {k : Nat} (h : bits a = k + 1) : a.toNat.testBit k = true := by
  have hlow := two_pow_bits_le h
  have hhigh := lt_two_pow_bits a
  rw [h, Nat.pow_succ] at hhigh
  rw [Nat.testBit_eq_decide_div_mod_eq, Nat.div_eq_of_lt_le (k := 1) (by omega) (by omega)]
  rfl

theorem bytes_sub_keptBytes : bytes a - keptBytes a = compactSize a - 3 := by
  unfold compactSize
  cases hbits : bits a with
  | zero =>
    rw [if_pos (bits_eq_zero.mp hbits), bytes, hbits]
    exact Nat.zero_sub _
  | succ k =>
    have hne : a.toNat ≠ 0 := fun h => by
      rw [bits_eq_zero.mpr h] at hbits
      cases hbits
    rw [if_neg hne, keptBytes, bytes, hbits]
    rcases Nat.eq_or_lt_of_le (show k ≤ 8 * ((k + 1 + 7) / 8) - 1 by omega) with hfull | hpart
    · rw [← hfull, if_pos (testBit_bits hbits)]
      omega
    · have hclear : a.toNat.testBit (8 * ((k + 1 + 7) / 8) - 1) = false := by
        apply Nat.testBit_lt_two_pow
        calc
          a.toNat < 2 ^ bits a := lt_two_pow_bits a
          _ ≤ 2 ^ (8 * ((k + 1 + 7) / 8) - 1) :=
            Nat.pow_le_pow_right (by decide) (by rw [hbits]; exact hpart)
      rw [hclear]
      simp only [Bool.false_eq_true, if_false]
      omega

theorem rounded_le : rounded a ≤ a.toNat := Nat.div_mul_le_self _ _

theorem setCompact_getCompact_rounded : ∃ nBits, getCompact a = .ok nBits ∧
    setCompact nBits = (rounded a, false, false) := by
  rw [rounded, bytes_sub_keptBytes]
  exact setCompact_getCompact a

/-! ### Order -/

theorem bits_mono {a b : UInt256} (h : a.toNat ≤ b.toNat) : bits a ≤ bits b := by
  cases ha : bits a with
  | zero => exact Nat.zero_le _
  | succ k =>
    have hlt : 2 ^ k < 2 ^ bits b := calc
      2 ^ k ≤ a.toNat := two_pow_bits_le ha
      _ ≤ b.toNat := h
      _ < 2 ^ bits b := lt_two_pow_bits b
    exact (Nat.pow_lt_pow_iff_right (by decide)).mp hlt

theorem compactSize_mono {a b : UInt256} (h : a.toNat ≤ b.toNat) :
    compactSize a ≤ compactSize b := by
  have hbits := bits_mono h
  unfold compactSize
  split
  · exact Nat.zero_le _
  · rw [if_neg (by omega)]
    omega

theorem packed_mono {a b : UInt256} (h : a.toNat ≤ b.toNat) :
    compactSize a * 2 ^ 24 + mantissa a ≤ compactSize b * 2 ^ 24 + mantissa b := by
  rcases Nat.eq_or_lt_of_le (compactSize_mono h) with heq | hlt
  · have hmantissa : mantissa a ≤ mantissa b := by
      rw [mantissa, mantissa, heq]
      exact Nat.div_le_div_right (Nat.mul_le_mul_right _ h)
    rw [heq]
    exact Nat.add_le_add_left hmantissa _
  · have := mantissa_lt a
    omega

theorem getCompact_mono {a b : UInt256} (h : a.toNat ≤ b.toNat) {x y : UInt32}
    (hx : getCompact a = .ok x) (hy : getCompact b = .ok y) : x ≤ y := by
  have htoNat : ∀ c : UInt256, (UInt32.ofNat (compactSize c * 2 ^ 24 + mantissa c)).toNat =
      compactSize c * 2 ^ 24 + mantissa c := by
    intro c
    have hsize := compactSize_le c
    have hword := mantissa_lt c
    rw [UInt32.toNat_ofNat', Nat.mod_eq_of_lt (by omega)]
  rw [getCompact_eq] at hx hy
  cases hx
  cases hy
  rw [UInt32.le_iff_toNat_le, htoNat, htoNat]
  exact packed_mono h

/-! ### Numbers that were read -/

theorem setCompact_eq_shifted {nCompact : UInt32} {v : Nat} {fNegative : Bool}
    (h : setCompact nCompact = (v, fNegative, false)) :
    ∃ word zeros, v = word * 2 ^ (8 * zeros) ∧ word < 2 ^ 23 ∧ v < 2 ^ 256 := by
  simp only [setCompact, Prod.mk.injEq] at h
  obtain ⟨hv, -, hoverflow⟩ := h
  have hword : nCompact.toNat % 2 ^ 23 < 2 ^ 23 := Nat.mod_lt _ (by decide)
  generalize nCompact.toNat % 2 ^ 23 = word at *
  generalize nCompact.toNat / 2 ^ 24 = nSize at *
  by_cases hsmall : nSize ≤ 3
  · simp only [hsmall, if_true] at hv
    have hle : word / 2 ^ (8 * (3 - nSize)) ≤ word := Nat.div_le_self _ _
    exact ⟨v, 0, by simp, by omega, by omega⟩
  · simp only [hsmall, if_false] at hv hoverflow
    have hfits : word * 2 ^ (8 * (nSize - 3)) < 2 ^ 256 := by
      rcases Nat.eq_zero_or_pos word with rfl | hpos
      · rw [Nat.zero_mul]
        decide
      · have hne : (word != 0) = true := bne_iff_ne.mpr hpos.ne'
        rw [hne, Bool.true_and] at hoverflow
        simp only [Bool.or_eq_false_iff, Bool.and_eq_false_iff, decide_eq_false_iff_not] at hoverflow
        obtain ⟨⟨hlong, hbyte⟩, htwo⟩ := hoverflow
        -- the three conditions bound the mantissa by what the exponent leaves
        have hcases : nSize ≤ 32 ∨ (nSize = 33 ∧ word < 2 ^ 16) ∨ (nSize = 34 ∧ word < 2 ^ 8) := by
          omega
        rcases hcases with hless | ⟨rfl, hword16⟩ | ⟨rfl, hword8⟩
        · calc
            word * 2 ^ (8 * (nSize - 3)) < 2 ^ 23 * 2 ^ (8 * (nSize - 3)) :=
              Nat.mul_lt_mul_of_pos_right hword (Nat.two_pow_pos _)
            _ ≤ 2 ^ 23 * 2 ^ 232 :=
              Nat.mul_le_mul_left _ (Nat.pow_le_pow_right (by decide) (by omega))
            _ < 2 ^ 256 := by decide
        · omega
        · omega
    rw [Nat.mod_eq_of_lt hfits] at hv
    exact ⟨word, nSize - 3, hv.symm, hword, hv ▸ hfits⟩

theorem rounded_eq_self {word zeros : Nat} (hword : word < 2 ^ 23)
    (hv : word * 2 ^ (8 * zeros) < 2 ^ 256) :
    rounded (BitVec.ofNat 256 (word * 2 ^ (8 * zeros))) = word * 2 ^ (8 * zeros) := by
  have htoNat : (BitVec.ofNat 256 (word * 2 ^ (8 * zeros))).toNat = word * 2 ^ (8 * zeros) := by
    rw [BitVec.toNat_ofNat, Nat.mod_eq_of_lt hv]
  generalize BitVec.ofNat 256 (word * 2 ^ (8 * zeros)) = a at *
  have hlt : a.toNat < 2 ^ (23 + 8 * zeros) := by
    rw [htoNat, Nat.pow_add]
    exact Nat.mul_lt_mul_of_pos_right hword (Nat.two_pow_pos _)
  have hbits : bits a ≤ 23 + 8 * zeros := by
    cases h : bits a with
    | zero => exact Nat.zero_le _
    | succ k =>
      exact (Nat.pow_lt_pow_iff_right (by decide)).mp ((two_pow_bits_le h).trans_lt hlt)
  have hsize : compactSize a - 3 ≤ zeros := by
    unfold compactSize
    split <;> omega
  have hdvd : 2 ^ (8 * (compactSize a - 3)) ∣ a.toNat := by
    rw [htoNat]
    exact Nat.dvd_mul_left_of_dvd (Nat.pow_dvd_pow 2 (Nat.mul_le_mul_left 8 hsize)) word
  rw [rounded, bytes_sub_keptBytes, Nat.div_mul_cancel hdvd, htoNat]

/-! ### The work of a block -/

def getBlockProof (nBits : UInt32) : Run UInt256 :=
  let (bnTarget, fNegative, fOverflow) := setCompact nBits
  if fNegative || fOverflow || bnTarget == 0 then pure 0
  else do
    let quotient ← div (~~~BitVec.ofNat 256 bnTarget) (add (BitVec.ofNat 256 bnTarget) 1)
    pure (add quotient 1)

theorem target_add_one_lt {nCompact : UInt32} {t : Nat} {fNegative : Bool}
    (h : setCompact nCompact = (t, fNegative, false)) : t + 1 < 2 ^ 256 := by
  obtain ⟨word, zeros, ht, hword, hlt⟩ := setCompact_eq_shifted h
  cases zeros with
  | zero => omega
  | succ zeros =>
    rw [Nat.mul_succ, Nat.pow_add, ← Nat.mul_assoc] at ht
    omega

theorem div_add_one {n t : Nat} (h : t + 1 ≤ n) : (n - 1 - t) / (t + 1) + 1 = n / (t + 1) := by
  rw [← Nat.add_div_right _ (Nat.succ_pos t)]
  congr 1
  omega

/-- **The work is `2 ^ 256` divided by the target plus one.** -/
theorem getBlockProof_eq {nBits : UInt32} {t : Nat} (h : setCompact nBits = (t, false, false))
    (ht : t ≠ 0) :
    ∃ proof, getBlockProof nBits = .ok proof ∧ proof.toNat = 2 ^ 256 / (t + 1) := by
  have hnext := target_add_one_lt h
  have htoNat : (BitVec.ofNat 256 t).toNat = t := by
    rw [BitVec.toNat_ofNat, Nat.mod_eq_of_lt (by omega)]
  have hdivisor : (add (BitVec.ofNat 256 t) 1).toNat = t + 1 := by
    rw [toNat_add, htoNat]
    exact Nat.mod_eq_of_lt hnext
  have hdividend : (~~~BitVec.ofNat 256 t).toNat = 2 ^ 256 - 1 - t := by
    rw [BitVec.toNat_not, htoNat]
  obtain ⟨quotient, hdiv, hquotient⟩ := div_eq_ok (a := ~~~BitVec.ofNat 256 t)
    (b := add (BitVec.ofNat 256 t) 1) (by rw [hdivisor]; exact Nat.succ_ne_zero t)
  have hhalf : 2 ^ 256 / (t + 1) ≤ 2 ^ 256 / 2 := Nat.div_le_div_left (by omega) (by decide)
  refine ⟨add quotient 1, ?_, ?_⟩
  · simp only [getBlockProof, h, Bool.or_self, beq_eq_false_iff_ne.mpr ht,
      Bool.false_eq_true, if_false, hdiv, ok_bind]
    rfl
  · rw [toNat_add, hquotient, hdividend, hdivisor]
    show ((2 ^ 256 - 1 - t) / (t + 1) + 1) % 2 ^ 256 = _
    rw [div_add_one hnext.le]
    exact Nat.mod_eq_of_lt (by omega)

theorem getBlockProof_toNat (nBits : UInt32) : ∃ proof, getBlockProof nBits = .ok proof ∧
    proof.toNat = VBitcoin.getBlockProof nBits := by
  rcases h : setCompact nBits with ⟨t, fNegative, fOverflow⟩
  by_cases hnone : (fNegative || fOverflow || t == 0) = true
  · simp only [getBlockProof, VBitcoin.getBlockProof, h, hnone, if_true]
    exact ⟨0, rfl, rfl⟩
  · rw [Bool.not_eq_true] at hnone
    simp only [Bool.or_eq_false_iff, beq_eq_false_iff_ne] at hnone
    obtain ⟨⟨rfl, rfl⟩, ht⟩ := hnone
    obtain ⟨proof, hproof, hvalue⟩ := getBlockProof_eq h ht
    refine ⟨proof, hproof, ?_⟩
    simp only [VBitcoin.getBlockProof, h, Bool.or_self, beq_eq_false_iff_ne.mpr ht,
      Bool.false_eq_true, if_false]
    rw [hvalue, div_add_one (target_add_one_lt h).le]

/-- **The compact form is canonical and ordered**, and the work falls as the target grows. -/
theorem compact_canonical :
    (∀ a : UInt256, ∃ nBits, getCompact a = .ok nBits ∧
      setCompact nBits = (rounded a, false, false) ∧ rounded a ≤ a.toNat) ∧
    (∀ a b : UInt256, a.toNat ≤ b.toNat →
      ∃ x y, getCompact a = .ok x ∧ getCompact b = .ok y ∧ x ≤ y) ∧
    (∀ (nCompact : UInt32) (v : Nat), setCompact nCompact = (v, false, false) →
      ∃ nBits, getCompact (BitVec.ofNat 256 v) = .ok nBits ∧
        setCompact nBits = (v, false, false)) ∧
    (∀ (nBits : UInt32) (t : Nat), setCompact nBits = (t, false, false) → t ≠ 0 →
      ∃ proof, getBlockProof nBits = .ok proof ∧ proof.toNat = 2 ^ 256 / (t + 1) ∧
        0 < proof.toNat) ∧
    (∀ (nBits nBits' : UInt32) (t t' : Nat), setCompact nBits = (t, false, false) →
      setCompact nBits' = (t', false, false) → t ≠ 0 → t ≤ t' →
      ∃ proof proof', getBlockProof nBits = .ok proof ∧ getBlockProof nBits' = .ok proof' ∧
        proof'.toNat ≤ proof.toNat) := by
  refine ⟨?_, ?_, ?_, ?_, ?_⟩
  · intro a
    obtain ⟨nBits, hget, hset⟩ := setCompact_getCompact_rounded a
    exact ⟨nBits, hget, hset, rounded_le a⟩
  · intro a b hle
    exact ⟨_, _, getCompact_eq a, getCompact_eq b,
      getCompact_mono hle (getCompact_eq a) (getCompact_eq b)⟩
  · intro nCompact v h
    obtain ⟨word, zeros, rfl, hword, hlt⟩ := setCompact_eq_shifted h
    obtain ⟨nBits, hget, hset⟩ :=
      setCompact_getCompact_rounded (BitVec.ofNat 256 (word * 2 ^ (8 * zeros)))
    rw [rounded_eq_self hword hlt] at hset
    exact ⟨nBits, hget, hset⟩
  · intro nBits t h ht
    obtain ⟨proof, hproof, hvalue⟩ := getBlockProof_eq h ht
    refine ⟨proof, hproof, hvalue, ?_⟩
    rw [hvalue]
    exact Nat.div_pos (target_add_one_lt h).le (Nat.succ_pos t)
  · intro nBits nBits' t t' h h' ht hle
    obtain ⟨proof, hproof, hvalue⟩ := getBlockProof_eq h ht
    obtain ⟨proof', hproof', hvalue'⟩ := getBlockProof_eq h' (by omega)
    refine ⟨proof, proof', hproof, hproof', ?_⟩
    rw [hvalue, hvalue']
    exact Nat.div_le_div_left (Nat.succ_le_succ hle) (Nat.succ_pos t)

theorem powLimit_canonical :
    (∃ nBits, getCompact (BitVec.ofNat 256 (setCompact 0x1d00ffff).1) = .ok nBits ∧
      setCompact nBits = ((setCompact 0x1d00ffff).1, false, false)) ∧
    (∃ proof, getBlockProof 0x1d00ffff = .ok proof ∧
      proof.toNat = 2 ^ 256 / ((setCompact 0x1d00ffff).1 + 1) ∧ 0 < proof.toNat) ∧
    (∃ x y, getCompact 1 = .ok x ∧ getCompact 2 = .ok y ∧ x ≤ y) ∧
    (∃ proof proof', getBlockProof 0x1b00ffff = .ok proof ∧ getBlockProof 0x1d00ffff = .ok proof' ∧
      proof'.toNat ≤ proof.toNat) := by
  obtain ⟨-, hmono, hread, hwork, hantitone⟩ := compact_canonical
  refine ⟨hread 0x1d00ffff _ (by decide), hwork 0x1d00ffff _ (by decide)
    (by decide), hmono 1 2 (by decide),
    hantitone 0x1b00ffff 0x1d00ffff (setCompact 0x1b00ffff).1 (setCompact 0x1d00ffff).1
      (by decide) (by decide) (by decide) (by decide +kernel)⟩

end VBitcoin.ArithUint256
