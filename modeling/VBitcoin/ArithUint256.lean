import VBitcoin.CheckBlock
import VBitcoin.LongArithmetic

/-!
**256-bit arithmetic** — `arith_uint256` (`arith_uint256.h`, `arith_uint256.cpp`): eight limbs
of 32 bits, added and multiplied with 64-bit carries, divided by shifting and subtracting, and
the compact form in which a target stands in a header.
-/

namespace VBitcoin

open LongArithmetic

namespace ArithUint256

/-! ### Limbs -/

variable (a : UInt256)

def limbs : List Nat := digits (2 ^ 32) 8 a.toNat

def ofLimbs (pn : List Nat) : UInt256 := BitVec.ofNat 256 (Nat.ofDigits (2 ^ 32) pn)

def add (a b : UInt256) : UInt256 :=
  ofLimbs (addDigits (2 ^ 32) (2 ^ 64) 0 (limbs a) (limbs b))

/-- `operator*=(uint32_t)`, which C++ also picks for a factor of type `int64_t`. -/
def mulUInt32 (b32 : UInt32) : UInt256 :=
  ofLimbs (mulDigit (2 ^ 32) (2 ^ 64) b32.toNat 0 (limbs a))

/-- `bits`: the place of the highest bit, from one. -/
def bits : Nat := if a.toNat = 0 then 0 else a.toNat.log2 + 1

def div (a b : UInt256) : Run UInt256 :=
  if bits b = 0 then .error (.exception "Division by zero")
  else if bits a < bits b then .ok 0
  else .ok (divLoop (bits a - bits b + 1) a (b <<< (bits a - bits b)) 0)

theorem ofDigits_limbs : Nat.ofDigits (2 ^ 32) (limbs a) = a.toNat := by
  rw [limbs, ofDigits_digits]
  exact Nat.mod_eq_of_lt a.isLt

theorem limbs_lt : ∀ d ∈ limbs a, d < 2 ^ 32 := digits_lt (by decide) 8 _

theorem length_limbs : (limbs a).length = 8 := length_digits 8 _

theorem toNat_add (a b : UInt256) : (add a b).toNat = (a.toNat + b.toNat) % 2 ^ 256 := by
  rw [add, ofLimbs, ofDigits_addDigits (by decide) (limbs_lt a) (limbs_lt b) (by decide)
    ((length_limbs a).trans (length_limbs b).symm), ofDigits_limbs, ofDigits_limbs, length_limbs,
    Nat.zero_add, BitVec.toNat_ofNat]
  exact Nat.mod_mod _ _

theorem toNat_mulUInt32 (b32 : UInt32) :
    (mulUInt32 a b32).toNat = b32.toNat * a.toNat % 2 ^ 256 := by
  rw [mulUInt32, ofLimbs, ofDigits_mulDigit (by decide) b32.toNat_lt (limbs_lt a) (by decide),
    ofDigits_limbs, length_limbs, Nat.zero_add, BitVec.toNat_ofNat]
  exact Nat.mod_mod _ _

/-! ### Division -/

theorem bits_eq_zero {a : UInt256} : bits a = 0 ↔ a.toNat = 0 := by
  unfold bits
  split
  · simp_all
  · simp_all

theorem lt_two_pow_bits : a.toNat < 2 ^ bits a := by
  unfold bits
  split
  · simp_all
  · exact Nat.lt_log2_self

theorem two_pow_bits_le {a : UInt256} {n : Nat} (h : bits a = n + 1) : 2 ^ n ≤ a.toNat := by
  unfold bits at h
  split at h
  · cases h
  · rename_i hne
    rw [← Nat.succ.inj h]
    exact Nat.log2_self_le hne

theorem bits_le : bits a ≤ 256 := by
  cases h : bits a with
  | zero => exact Nat.zero_le _
  | succ n =>
    have hle := two_pow_bits_le h
    have hlt : 2 ^ n < 2 ^ 256 := Nat.lt_of_le_of_lt hle a.isLt
    exact (Nat.pow_lt_pow_iff_right (by decide)).mp hlt

theorem div_eq_ok {a b : UInt256} (hb : b.toNat ≠ 0) :
    ∃ q, div a b = .ok q ∧ q.toNat = a.toNat / b.toNat := by
  have hbits : bits b ≠ 0 := fun h => hb (bits_eq_zero.mp h)
  obtain ⟨n, hn⟩ := Nat.exists_eq_succ_of_ne_zero hbits
  have hpos : 0 < b.toNat := Nat.pos_of_ne_zero hb
  rw [div, if_neg hbits]
  split
  · rename_i hless
    refine ⟨0, rfl, ?_⟩
    have hlt : a.toNat < b.toNat := calc
      a.toNat < 2 ^ bits a := lt_two_pow_bits a
      _ ≤ 2 ^ n := Nat.pow_le_pow_right (by decide) (by omega)
      _ ≤ b.toNat := two_pow_bits_le hn
    exact (Nat.div_eq_of_lt hlt).symm
  · rename_i hmore
    refine ⟨_, rfl, ?_⟩
    -- aligned with the dividend, the divisor does not lose a bit
    have haligned : b.toNat * 2 ^ (bits a - bits b) < 2 ^ 256 := calc
      b.toNat * 2 ^ (bits a - bits b) < 2 ^ bits b * 2 ^ (bits a - bits b) :=
        Nat.mul_lt_mul_of_pos_right (lt_two_pow_bits b) (Nat.two_pow_pos _)
      _ = 2 ^ bits a := by rw [← Nat.pow_add, Nat.add_sub_cancel' (Nat.not_lt.mp hmore)]
      _ ≤ 2 ^ 256 := Nat.pow_le_pow_right (by decide) (bits_le a)
    have hdiv : ∀ shift, bits a - bits b + 1 = shift + 1 →
        (b <<< (bits a - bits b)).toNat = b.toNat * 2 ^ shift := by
      rintro shift h
      rw [BitVec.toNat_shiftLeft, Nat.shiftLeft_eq, Nat.mod_eq_of_lt haligned, Nat.succ.inj h]
    have hnum : a.toNat < b.toNat * 2 ^ (bits a - bits b + 1) := calc
      a.toNat < 2 ^ bits a := lt_two_pow_bits a
      _ = 2 ^ n * 2 ^ (bits a - bits b + 1) := by
        rw [← Nat.pow_add]
        congr 1
        omega
      _ ≤ b.toNat * 2 ^ (bits a - bits b + 1) := Nat.mul_le_mul_right _ (two_pow_bits_le hn)
    rw [toNat_divLoop hpos hdiv hnum (Nat.dvd_zero _)]
    exact Nat.zero_add _

/-! ### The compact form -/

def getLow64 : Nat := a.toNat % 2 ^ 64

def leadingBytes (nSize : Nat) : Nat :=
  (if nSize ≤ 3 then getLow64 a * 2 ^ (8 * (3 - nSize)) % 2 ^ 64
    else getLow64 (a >>> (8 * (nSize - 3)))) % 2 ^ 32

/-- The bit `0x00800000` is the sign: a mantissa that has it is shortened. -/
def getCompact : Run UInt32 := do
  let nSize := (bits a + 7) / 8
  let nCompact := leadingBytes a nSize
  let signed := nCompact / 2 ^ 23 % 2 == 1
  let nCompact := if signed then nCompact / 2 ^ 8 else nCompact
  let nSize := if signed then nSize + 1 else nSize
  require (nCompact < 2 ^ 23) (.assertion "(nCompact & ~0x007fffff) == 0")
  require (nSize < 256) (.assertion "nSize < 256")
  pure (UInt32.ofNat (nSize * 2 ^ 24 + nCompact))

theorem setCompact_pack {nSize nWord : Nat} (hword : nWord < 2 ^ 23) (hsize : nSize ≤ 33)
    (htop : nSize = 33 → nWord < 2 ^ 16) :
    setCompact (UInt32.ofNat (nSize * 2 ^ 24 + nWord)) =
      (nWord * 2 ^ (8 * nSize) / 2 ^ 24, false, false) := by
  have hvalue : (UInt32.ofNat (nSize * 2 ^ 24 + nWord)).toNat = nSize * 2 ^ 24 + nWord := by
    rw [UInt32.toNat_ofNat', Nat.mod_eq_of_lt (by omega)]
  have hhigh : (nSize * 2 ^ 24 + nWord) / 2 ^ 24 = nSize := by omega
  have hlow : (nSize * 2 ^ 24 + nWord) % 2 ^ 23 = nWord := by omega
  have hsign : (nSize * 2 ^ 24 + nWord) / 2 ^ 23 % 2 = 0 := by omega
  simp only [setCompact, hvalue, hhigh, hlow, hsign]
  by_cases hsmall : nSize ≤ 3
  · have hscale : 2 ^ 24 = 2 ^ (8 * nSize) * 2 ^ (8 * (3 - nSize)) := by
      rw [← Nat.pow_add]
      congr 1
      omega
    have hshift : nWord * 2 ^ (8 * nSize) / 2 ^ 24 = nWord / 2 ^ (8 * (3 - nSize)) := by
      rw [hscale, Nat.mul_comm, Nat.mul_div_mul_left _ _ (Nat.two_pow_pos _)]
    have hbounds : ¬ 34 < nSize ∧ ¬ 33 < nSize ∧ ¬ 32 < nSize := by omega
    rw [hshift]
    simp [hsmall, hbounds]
  · have hscale : 2 ^ (8 * nSize) = 2 ^ (8 * (nSize - 3)) * 2 ^ 24 := by
      rw [← Nat.pow_add]
      congr 1
      omega
    have hshift : nWord * 2 ^ (8 * nSize) / 2 ^ 24 = nWord * 2 ^ (8 * (nSize - 3)) := by
      rw [hscale, ← Nat.mul_assoc, Nat.mul_div_cancel _ (Nat.two_pow_pos _)]
    have hfits : nWord * 2 ^ (8 * (nSize - 3)) < 2 ^ 256 := by
      rcases Nat.lt_or_eq_of_le hsize with hless | htop33
      · calc
          nWord * 2 ^ (8 * (nSize - 3)) < 2 ^ 23 * 2 ^ (8 * (nSize - 3)) :=
            Nat.mul_lt_mul_of_pos_right hword (Nat.two_pow_pos _)
          _ ≤ 2 ^ 23 * 2 ^ 232 :=
            Nat.mul_le_mul_left _ (Nat.pow_le_pow_right (by decide) (by omega))
          _ < 2 ^ 256 := by decide
      · subst htop33
        have := htop rfl
        omega
    have hbounds : ¬ 34 < nSize ∧ ¬ 33 < nSize ∧ (0xffff < nWord → ¬ 32 < nSize) := by omega
    rw [hshift, if_neg hsmall, if_neg hsmall, Nat.mod_eq_of_lt hfits]
    simp
    omega

theorem leadingBytes_eq {a : UInt256} {nSize : Nat} (h : a.toNat < 2 ^ (8 * nSize)) :
    leadingBytes a nSize = a.toNat * 2 ^ 24 / 2 ^ (8 * nSize) ∧ leadingBytes a nSize < 2 ^ 24 := by
  have hlt : a.toNat * 2 ^ 24 / 2 ^ (8 * nSize) < 2 ^ 24 :=
    Nat.div_lt_of_lt_mul (Nat.mul_lt_mul_of_pos_right h (by decide))
  suffices heq : leadingBytes a nSize = a.toNat * 2 ^ 24 / 2 ^ (8 * nSize) from ⟨heq, heq ▸ hlt⟩
  unfold leadingBytes
  split
  · rename_i hsmall
    have hscale : 2 ^ 24 = 2 ^ (8 * (3 - nSize)) * 2 ^ (8 * nSize) := by
      rw [← Nat.pow_add]
      congr 1
      omega
    have hshift : a.toNat * 2 ^ 24 / 2 ^ (8 * nSize) = a.toNat * 2 ^ (8 * (3 - nSize)) := by
      rw [hscale, ← Nat.mul_assoc, Nat.mul_div_cancel _ (Nat.two_pow_pos _)]
    have hvalue : a.toNat < 2 ^ 64 := calc
      a.toNat < 2 ^ (8 * nSize) := h
      _ ≤ 2 ^ 64 := Nat.pow_le_pow_right (by decide) (by omega)
    rw [hshift] at hlt ⊢
    rw [getLow64, Nat.mod_eq_of_lt hvalue, Nat.mod_eq_of_lt (by omega), Nat.mod_eq_of_lt (by omega)]
  · rename_i hlarge
    have hscale : 2 ^ (8 * nSize) = 2 ^ (8 * (nSize - 3)) * 2 ^ 24 := by
      rw [← Nat.pow_add]
      congr 1
      omega
    have hshift : a.toNat * 2 ^ 24 / 2 ^ (8 * nSize) = a.toNat / 2 ^ (8 * (nSize - 3)) := by
      rw [hscale, Nat.mul_div_mul_right _ _ (Nat.two_pow_pos _)]
    rw [hshift] at hlt ⊢
    have hword : a.toNat / 2 ^ (8 * (nSize - 3)) % 2 ^ 64 = a.toNat / 2 ^ (8 * (nSize - 3)) :=
      Nat.mod_eq_of_lt (Nat.lt_trans hlt (by decide))
    rw [getLow64, BitVec.toNat_ushiftRight, Nat.shiftRight_eq_div_pow, hword]
    exact Nat.mod_eq_of_lt (Nat.lt_trans hlt (by decide))

/-! ### The size and the mantissa of the compact form -/

/-- The size written; a leading bit in the place of the sign takes one more. -/
def compactSize : Nat := if a.toNat = 0 then 0 else bits a / 8 + 1

def mantissa : Nat := a.toNat * 2 ^ 24 / 2 ^ (8 * compactSize a)

theorem compactSize_le : compactSize a ≤ 33 := by
  have hbits := bits_le a
  unfold compactSize
  split <;> omega

theorem lt_two_pow_compactSize : a.toNat < 2 ^ (8 * compactSize a - 1) := by
  unfold compactSize
  split
  · rename_i hzero
    rw [hzero]
    decide
  · calc
      a.toNat < 2 ^ bits a := lt_two_pow_bits a
      _ ≤ 2 ^ (8 * (bits a / 8 + 1) - 1) := Nat.pow_le_pow_right (by decide) (by omega)

theorem mantissa_lt : mantissa a < 2 ^ 23 := by
  apply Nat.div_lt_of_lt_mul
  rcases Nat.eq_zero_or_pos (compactSize a) with hzero | hpos
  · have hlt := lt_two_pow_compactSize a
    rw [hzero] at hlt ⊢
    omega
  · calc
      a.toNat * 2 ^ 24 < 2 ^ (8 * compactSize a - 1) * 2 ^ 24 :=
        Nat.mul_lt_mul_of_pos_right (lt_two_pow_compactSize a) (by decide)
      _ = 2 ^ (8 * compactSize a) * 2 ^ 23 := by
        rw [← Nat.pow_add, ← Nat.pow_add]
        congr 1
        omega

theorem mantissa_lt_of_compactSize {a : UInt256} (h : compactSize a = 33) :
    mantissa a < 2 ^ 16 := by
  have hlt := a.isLt
  rw [mantissa, h]
  omega

theorem getCompact_eq :
    getCompact a = .ok (UInt32.ofNat (compactSize a * 2 ^ 24 + mantissa a)) := by
  have hsize : compactSize a < 256 := Nat.lt_of_le_of_lt (compactSize_le a) (by decide)
  have hword := mantissa_lt a
  suffices hparts :
      (if leadingBytes a ((bits a + 7) / 8) / 2 ^ 23 % 2 == 1 then
        leadingBytes a ((bits a + 7) / 8) / 2 ^ 8 else leadingBytes a ((bits a + 7) / 8)) =
          mantissa a ∧
      (if leadingBytes a ((bits a + 7) / 8) / 2 ^ 23 % 2 == 1 then (bits a + 7) / 8 + 1
        else (bits a + 7) / 8) = compactSize a by
    simp only [getCompact, hparts, decide_eq_true hword, decide_eq_true hsize, require_true,
      ok_bind]
    rfl
  generalize hn : (bits a + 7) / 8 = nSize
  have hlt : a.toNat < 2 ^ (8 * nSize) := calc
    a.toNat < 2 ^ bits a := lt_two_pow_bits a
    _ ≤ 2 ^ (8 * nSize) := Nat.pow_le_pow_right (by decide) (by omega)
  obtain ⟨hbytes, hbound⟩ := leadingBytes_eq hlt
  by_cases hzero : a.toNat = 0
  · have hbits : bits a = 0 := bits_eq_zero.mpr hzero
    obtain rfl : nSize = 0 := by omega
    simp [hbytes, hzero, compactSize, mantissa]
  obtain ⟨k, hk⟩ := Nat.exists_eq_succ_of_ne_zero fun h => hzero (bits_eq_zero.mp h)
  -- the sign bit is set when the bits fill the bytes
  by_cases hfull : bits a = 8 * nSize
  · have hleading : 2 ^ 23 ≤ leadingBytes a nSize := by
      rw [hbytes]
      apply (Nat.le_div_iff_mul_le (Nat.two_pow_pos _)).mpr
      calc
        2 ^ 23 * 2 ^ (8 * nSize) = 2 ^ k * 2 ^ 24 := by
          rw [← Nat.pow_add, ← Nat.pow_add]
          congr 1
          omega
        _ ≤ a.toNat * 2 ^ 24 := Nat.mul_le_mul_right _ (two_pow_bits_le hk)
    have hsign : leadingBytes a nSize / 2 ^ 23 % 2 = 1 := by omega
    have hnext : compactSize a = nSize + 1 := by
      rw [compactSize, if_neg hzero]
      omega
    rw [hsign, hbytes, mantissa, hnext, Nat.div_div_eq_div_mul, ← Nat.pow_add]
    exact ⟨rfl, rfl⟩
  · have hsame : compactSize a = nSize := by
      rw [compactSize, if_neg hzero]
      omega
    have hmantissa : leadingBytes a nSize = mantissa a := by rw [hbytes, mantissa, hsame]
    have hsign : leadingBytes a nSize / 2 ^ 23 % 2 = 0 := by
      rw [hmantissa, Nat.div_eq_of_lt hword]
    rw [hsign, hsame]
    exact ⟨hmantissa, rfl⟩

theorem mantissa_unpacked : mantissa a * 2 ^ (8 * compactSize a) / 2 ^ 24 =
    a.toNat / 2 ^ (8 * (compactSize a - 3)) * 2 ^ (8 * (compactSize a - 3)) := by
  rw [mantissa]
  generalize compactSize a = nSize
  rcases Nat.lt_or_ge nSize 3 with hsmall | hlarge
  · have hscale : 2 ^ 24 = 2 ^ (8 * (3 - nSize)) * 2 ^ (8 * nSize) := by
      rw [← Nat.pow_add]
      congr 1
      omega
    have hshort : nSize - 3 = 0 := by omega
    rw [hshort, hscale, ← Nat.mul_assoc, Nat.mul_div_cancel _ (Nat.two_pow_pos _), Nat.mul_assoc,
      ← hscale, Nat.mul_div_cancel _ (by decide), Nat.mul_zero, Nat.pow_zero, Nat.div_one,
      Nat.mul_one]
  · have hscale : 2 ^ (8 * nSize) = 2 ^ (8 * (nSize - 3)) * 2 ^ 24 := by
      rw [← Nat.pow_add]
      congr 1
      omega
    rw [hscale, Nat.mul_div_mul_right _ _ (by decide), ← Nat.mul_assoc,
      Nat.mul_div_cancel _ (by decide)]

/-- **`SetCompact` after `GetCompact`** clears the low bytes. -/
theorem setCompact_getCompact : ∃ nBits, getCompact a = .ok nBits ∧
    setCompact nBits =
      (a.toNat / 2 ^ (8 * (compactSize a - 3)) * 2 ^ (8 * (compactSize a - 3)), false, false) := by
  refine ⟨_, getCompact_eq a, ?_⟩
  rw [setCompact_pack (mantissa_lt a) (compactSize_le a) mantissa_lt_of_compactSize,
    mantissa_unpacked]

/-- **A target survives its compact form**, rounded down, but not to zero. -/
theorem getCompact_spec : ∃ nBits target, getCompact a = .ok nBits ∧
    setCompact nBits = (target, false, false) ∧ target ≤ a.toNat ∧ (a.toNat ≠ 0 → target ≠ 0) := by
  obtain ⟨nBits, hget, hset⟩ := setCompact_getCompact a
  refine ⟨nBits, _, hget, hset, Nat.div_mul_le_self _ _, fun hne => ?_⟩
  obtain ⟨n, hbits⟩ := Nat.exists_eq_succ_of_ne_zero fun h => hne (bits_eq_zero.mp h)
  have hkept : 2 ^ (8 * (compactSize a - 3)) ≤ a.toNat := calc
    2 ^ (8 * (compactSize a - 3)) ≤ 2 ^ n := by
      apply Nat.pow_le_pow_right (by decide)
      rw [compactSize, if_neg hne]
      omega
    _ ≤ a.toNat := two_pow_bits_le hbits
  exact (Nat.mul_pos (Nat.div_pos hkept (Nat.two_pow_pos _)) (Nat.two_pow_pos _)).ne'

end ArithUint256

end VBitcoin
