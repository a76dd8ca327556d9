import VBitcoin.ArithUint256
import VBitcoin.LongOperations

/-!
**The operators of `base_uint<256>`** (`arith_uint256.h`, `arith_uint256.cpp`) — limb by limb,
with the loops of `LongOperations`.  Each is an operation modulo `2 ^ 256`, and only a division
by zero fails.  `ArithUint256` has the operators on 256-bit vectors.
-/

namespace VBitcoin

open LongArithmetic List

/-- `base_uint<256>`: eight limbs, the lowest first. -/
structure BaseUint where
  pn : List Nat
  length_eq : pn.length = 8
  lt : ∀ d ∈ pn, d < 2 ^ 32

namespace BaseUint

def toNat (a : BaseUint) : Nat := Nat.ofDigits (2 ^ 32) a.pn

/-! ### The operators -/

def zero : BaseUint := ⟨List.replicate 8 0, rfl, by decide⟩

def add (a b : BaseUint) : BaseUint where
  pn := addDigits (2 ^ 32) (2 ^ 64) 0 a.pn b.pn
  length_eq := by rw [length_addDigits 0 (a.length_eq.trans b.length_eq.symm), a.length_eq]
  lt := addDigits_lt (by decide) 0 (a.length_eq.trans b.length_eq.symm)

def inc (a : BaseUint) : BaseUint where
  pn := incDigits (2 ^ 32) a.pn
  length_eq := by rw [length_incDigits, a.length_eq]
  lt := incDigits_lt (by decide) a.lt

def dec (a : BaseUint) : BaseUint where
  pn := decDigits (2 ^ 32) a.pn
  length_eq := by rw [length_decDigits (by decide) a.lt, a.length_eq]
  lt := decDigits_lt (by decide) a.lt

def compl (a : BaseUint) : BaseUint where
  pn := complement (2 ^ 32) a.pn
  length_eq := by rw [complement, length_map, a.length_eq]
  lt := complement_lt (by decide) a.pn

def neg (a : BaseUint) : BaseUint := a.compl.inc

def sub (a b : BaseUint) : BaseUint := a.add b.neg

def mulUInt32 (a : BaseUint) (b32 : UInt32) : BaseUint where
  pn := mulDigit (2 ^ 32) (2 ^ 64) b32.toNat 0 a.pn
  length_eq := by rw [length_mulDigit, a.length_eq]
  lt := mulDigit_lt (by decide) b32.toNat a.pn 0

def mul (a b : BaseUint) : BaseUint where
  pn := mulDigits (2 ^ 32) (2 ^ 64) a.pn b.pn
  length_eq := by
    rw [(rowsDone_mulDigits (by decide) (by decide) a.lt b.lt
      (a.length_eq.trans b.length_eq.symm)).length_eq, a.length_eq]
  lt := (rowsDone_mulDigits (by decide) (by decide) a.lt b.lt
    (a.length_eq.trans b.length_eq.symm)).lt

def shl (a : BaseUint) (shift : Nat) : BaseUint where
  pn := shiftLeftDigits 32 shift a.pn
  length_eq := by rw [shiftLeftDigits, length_shiftDigits, a.length_eq]
  lt := shiftLeftDigits_lt a.lt shift

def shr (a : BaseUint) (shift : Nat) : BaseUint where
  pn := shiftRightDigits 32 shift a.pn
  length_eq := by rw [shiftRightDigits, length_shiftDigits, a.length_eq]
  lt := shiftRightDigits_lt a.lt shift

def compareTo (a b : BaseUint) : Int := compareDigits a.pn.reverse b.pn.reverse

def bits (a : BaseUint) : Nat := highestBit 32 a.pn.reverse

theorem bit_lt (shift : Nat) : 1 <<< (shift &&& 31) < 2 ^ 32 := by
  have hlow : shift &&& 31 < 32 := Nat.and_lt_two_pow shift (n := 5) (by decide)
  rw [Nat.one_shiftLeft]
  exact Nat.pow_lt_pow_right (by decide) hlow

def setBit (a : BaseUint) (shift : Nat) : Run BaseUint :=
  if shift / 32 < 8 then
    .ok {
      pn := orAll a.pn [(shift / 32, 1 <<< (shift &&& 31))]
      length_eq := by rw [length_orAll, a.length_eq]
      lt := orAll_lt a.lt (by
        rintro part hpart
        rw [mem_singleton.mp hpart]
        exact bit_lt shift) }
  else .error (.undefined "pn[shift / 32]")

/-- The loop of `operator/=`, from `shift` down to zero. -/
def divLoop : Nat → BaseUint → BaseUint → BaseUint → Run BaseUint
  | 0, _, _, quotient => .ok quotient
  | shift + 1, num, div, quotient =>
    if 0 ≤ num.compareTo div then do
      let quotient ← quotient.setBit shift
      divLoop shift (num.sub div) (div.shr 1) quotient
    else divLoop shift num (div.shr 1) quotient

def div (a b : BaseUint) : Run BaseUint :=
  let num_bits := a.bits
  let div_bits := b.bits
  if div_bits = 0 then .error (.exception "Division by zero")
  else if num_bits < div_bits then .ok zero
  else divLoop (num_bits - div_bits + 1) a (b.shl (num_bits - div_bits)) zero

/-! ### What they compute -/

variable (a b : BaseUint)

theorem toNat_lt : a.toNat < 2 ^ 256 := by
  have hlt := ofDigits_lt (by decide) a.lt
  rwa [a.length_eq, ← Nat.pow_mul] at hlt

@[simp] theorem toNat_zero : zero.toNat = 0 := by
  rw [toNat, zero, Nat.ofDigits_replicate_zero]

theorem value_reverse : Radix.value (2 ^ 32) a.pn.reverse = a.toNat := by
  rw [Radix.value, reverse_reverse, toNat]

@[simp] theorem toNat_add : (a.add b).toNat = (a.toNat + b.toNat) % 2 ^ 256 := by
  rw [toNat, add, ofDigits_addDigits (by decide) a.lt b.lt (by decide)
    (a.length_eq.trans b.length_eq.symm), a.length_eq, ← Nat.pow_mul, Nat.zero_add]
  rfl

@[simp] theorem toNat_inc : a.inc.toNat = (a.toNat + 1) % 2 ^ 256 := by
  rw [toNat, inc, ofDigits_incDigits (by decide) a.lt, a.length_eq, ← Nat.pow_mul]
  rfl

theorem toNat_dec : a.dec.toNat = (a.toNat + (2 ^ 256 - 1)) % 2 ^ 256 := by
  rw [toNat, dec, ofDigits_decDigits (by decide) a.lt, a.length_eq, ← Nat.pow_mul]
  rfl

theorem toNat_compl : a.compl.toNat + a.toNat = 2 ^ 256 - 1 := by
  have hsum := ofDigits_complement (by decide) a.lt
  rwa [a.length_eq, ← Nat.pow_mul] at hsum

theorem toNat_neg : a.neg.toNat = (2 ^ 256 - a.toNat) % 2 ^ 256 := by
  have hsum := a.toNat_compl
  rw [neg, toNat_inc]
  congr 1
  omega

theorem toNat_sub : (a.sub b).toNat = (a.toNat + (2 ^ 256 - b.toNat)) % 2 ^ 256 := by
  rw [sub, toNat_add, toNat_neg, Nat.add_mod_mod]

@[simp] theorem toNat_mulUInt32 (b32 : UInt32) :
    (a.mulUInt32 b32).toNat = b32.toNat * a.toNat % 2 ^ 256 := by
  rw [toNat, mulUInt32, ofDigits_mulDigit (by decide) b32.toNat_lt a.lt (by decide), a.length_eq,
    ← Nat.pow_mul, Nat.zero_add]
  rfl

@[simp] theorem toNat_mul : (a.mul b).toNat = a.toNat * b.toNat % 2 ^ 256 := by
  rw [toNat, mul, ofDigits_mulDigits (by decide) (by decide) a.lt b.lt
    (a.length_eq.trans b.length_eq.symm), a.length_eq, ← Nat.pow_mul]
  rfl

@[simp] theorem toNat_shl (shift : Nat) : (a.shl shift).toNat = a.toNat * 2 ^ shift % 2 ^ 256 := by
  rw [toNat, shl, ofDigits_shiftLeftDigits (by decide) a.lt, a.length_eq, ← Nat.pow_mul]
  rfl

@[simp] theorem toNat_shr (shift : Nat) : (a.shr shift).toNat = a.toNat / 2 ^ shift :=
  ofDigits_shiftRightDigits (by decide) a.lt shift

theorem compareTo_eq : a.compareTo b =
    if a.toNat < b.toNat then -1 else if b.toNat < a.toNat then 1 else 0 := by
  rw [compareTo, compareDigits_eq (show 1 < 2 ^ 32 by decide), value_reverse, value_reverse]
  · rw [length_reverse, length_reverse, a.length_eq, b.length_eq]
  · exact fun d hd => a.lt d (mem_reverse.mp hd)
  · exact fun d hd => b.lt d (mem_reverse.mp hd)

theorem compareTo_nonneg : 0 ≤ a.compareTo b ↔ b.toNat ≤ a.toNat := by
  rw [compareTo_eq]
  rcases Nat.lt_trichotomy a.toNat b.toNat with h | h | h
  · rw [if_pos h]
    exact ⟨nofun, fun hle => absurd h (Nat.not_lt.mpr hle)⟩
  · rw [h, if_neg (Nat.lt_irrefl _), if_neg (Nat.lt_irrefl _)]
    simp
  · rw [if_neg (Nat.lt_asymm h), if_pos h]
    simpa using h.le

theorem bits_eq : a.bits = if a.toNat = 0 then 0 else a.toNat.log2 + 1 := by
  rw [bits, highestBit_eq (by decide), value_reverse]
  exact fun d hd => a.lt d (mem_reverse.mp hd)

/-! ### Division -/

def toUInt256 : UInt256 := BitVec.ofNat 256 a.toNat

@[simp] theorem toNat_toUInt256 : a.toUInt256.toNat = a.toNat := by
  rw [toUInt256, BitVec.toNat_ofNat, Nat.mod_eq_of_lt a.toNat_lt]

theorem bits_toUInt256 : ArithUint256.bits a.toUInt256 = a.bits := by
  rw [ArithUint256.bits, toNat_toUInt256, bits_eq]

theorem toUInt256_sub : (a.sub b).toUInt256 = a.toUInt256 - b.toUInt256 := by
  apply BitVec.eq_of_toNat_eq
  rw [toNat_toUInt256, toNat_sub, BitVec.toNat_sub, toNat_toUInt256, toNat_toUInt256, Nat.add_comm]

theorem toUInt256_shl (shift : Nat) : (a.shl shift).toUInt256 = a.toUInt256 <<< shift := by
  apply BitVec.eq_of_toNat_eq
  rw [toNat_toUInt256, toNat_shl, BitVec.toNat_shiftLeft, toNat_toUInt256, Nat.shiftLeft_eq]

theorem toUInt256_shr (shift : Nat) : (a.shr shift).toUInt256 = a.toUInt256 >>> shift := by
  apply BitVec.eq_of_toNat_eq
  rw [toNat_toUInt256, toNat_shr, BitVec.toNat_ushiftRight, toNat_toUInt256,
    Nat.shiftRight_eq_div_pow]

theorem setBit_eq_ok {shift : Nat} (hshift : shift < 256) :
    ∃ q, a.setBit shift = .ok q ∧ q.toUInt256 = a.toUInt256 ||| 1#256 <<< shift := by
  have hin : shift / 32 < 8 := by omega
  have hlow : shift &&& 31 = shift % 32 := Nat.and_two_pow_sub_one_eq_mod shift 5
  have hpow : 2 ^ shift < 2 ^ 256 := Nat.pow_lt_pow_right (by decide) hshift
  rw [setBit, if_pos hin]
  refine ⟨_, rfl, ?_⟩
  apply BitVec.eq_of_toNat_eq
  rw [toNat_toUInt256, BitVec.toNat_or, toNat_toUInt256, toNat_one_shiftLeft hpow]
  apply ofDigits_eq_of_testBit (w := 32) (by decide)
  · apply orAll_lt a.lt
    rintro part hpart
    rw [mem_singleton.mp hpart]
    exact bit_lt shift
  · rw [length_orAll, a.length_eq, ← Nat.pow_mul]
    exact Nat.or_lt_two_pow a.toNat_lt hpow
  · intro p hp q hq
    rw [length_orAll] at hp
    -- the mask has one bit, at the place that `shift` is split into
    have hmask : (shift / 32 == p && (1 <<< (shift &&& 31)).testBit q) =
        decide (shift = 32 * p + q) := by
      rw [hlow, Nat.one_shiftLeft, Nat.testBit_two_pow, Bool.eq_iff_iff, Bool.and_eq_true,
        beq_iff_eq, decide_eq_true_eq, decide_eq_true_eq]
      omega
    rw [testBit_orAll hp, any_cons, any_nil, Bool.or_false, hmask, Nat.testBit_or, toNat,
      testBit_ofDigits a.lt p hq, Nat.testBit_two_pow]

theorem map_toUInt256_divLoop : ∀ {steps : Nat} (num div quotient : BaseUint), steps ≤ 256 →
    (divLoop steps num div quotient).map toUInt256 =
      .ok (LongArithmetic.divLoop steps num.toUInt256 div.toUInt256 quotient.toUInt256)
  | 0, _, _, _, _ => rfl
  | shift + 1, num, div, quotient, hsteps => by
    have hle : 0 ≤ num.compareTo div ↔ div.toUInt256 ≤ num.toUInt256 := by
      rw [compareTo_nonneg, BitVec.le_def, toNat_toUInt256, toNat_toUInt256]
    rw [divLoop, LongArithmetic.divLoop]
    by_cases h : 0 ≤ num.compareTo div
    · obtain ⟨q, hq, hbit⟩ := quotient.setBit_eq_ok (show shift < 256 by omega)
      rw [if_pos h, if_pos (hle.mp h), hq, ok_bind, map_toUInt256_divLoop _ _ _ (by omega),
        toUInt256_sub, toUInt256_shr, hbit]
    · rw [if_neg h, if_neg (h ∘ hle.mpr), map_toUInt256_divLoop _ _ _ (by omega), toUInt256_shr]

/-- **The division of the limbs** is that of the vectors. -/
theorem map_toUInt256_div : (a.div b).map toUInt256 = ArithUint256.div a.toUInt256 b.toUInt256 := by
  have hbound : a.bits ≤ 256 := by
    rw [← bits_toUInt256]
    exact ArithUint256.bits_le _
  simp only [div, ArithUint256.div, bits_toUInt256]
  split
  · rfl
  · rename_i hb
    split
    · rw [Except.map, toUInt256, toNat_zero]
      rfl
    · rw [map_toUInt256_divLoop _ _ _ (by omega), toUInt256_shl]
      rw [show zero.toUInt256 = 0 by rw [toUInt256, toNat_zero]; rfl]

theorem map_toNat_div : (a.div b).map toNat =
    if b.toNat = 0 then .error (.exception "Division by zero") else .ok (a.toNat / b.toNat) := by
  have hdiv := map_toUInt256_div a b
  split
  · rename_i hzero
    have hbits : b.bits = 0 := by rw [bits_eq, if_pos hzero]
    simp only [div, if_pos hbits]
    rfl
  · rename_i hb
    obtain ⟨q, hq, hvalue⟩ := ArithUint256.div_eq_ok (a := a.toUInt256) (b := b.toUInt256)
      (by rwa [toNat_toUInt256])
    rw [hq] at hdiv
    rw [toNat_toUInt256, toNat_toUInt256] at hvalue
    cases h : a.div b with
    | error stop =>
      rw [h] at hdiv
      cases hdiv
    | ok r =>
      rw [h] at hdiv
      rw [← hvalue, ← Except.ok.inj hdiv, toNat_toUInt256]
      rfl

theorem natCast_sub_mod {x y m : Nat} (hy : y ≤ m) :
    (((x + (m - y)) % m : Nat) : Int) = ((x : Int) - y) % m := by
  have hsum : ((x + (m - y) : Nat) : Int) = (x : Int) - y + m := by omega
  rw [Int.natCast_emod, hsum, Int.add_emod_right]

/-- **The operators are exact** modulo `2 ^ 256`, and only a division by zero fails. -/
theorem operators_exact (b32 : UInt32) (shift : Nat) :
    (a.add b).toNat = (a.toNat + b.toNat) % 2 ^ 256 ∧
    ((a.sub b).toNat : Int) = ((a.toNat : Int) - b.toNat) % 2 ^ 256 ∧
    (a.neg.toNat : Int) = -(a.toNat : Int) % 2 ^ 256 ∧
    (a.mul b).toNat = a.toNat * b.toNat % 2 ^ 256 ∧
    (a.mulUInt32 b32).toNat = a.toNat * b32.toNat % 2 ^ 256 ∧
    (a.div b).map toNat =
      (if b.toNat = 0 then .error (.exception "Division by zero")
        else .ok (a.toNat / b.toNat)) ∧
    (a.shl shift).toNat = a.toNat * 2 ^ shift % 2 ^ 256 ∧
    (a.shr shift).toNat = a.toNat / 2 ^ shift ∧
    a.inc.toNat = (a.toNat + 1) % 2 ^ 256 ∧
    (a.dec.toNat : Int) = ((a.toNat : Int) - 1) % 2 ^ 256 ∧
    a.compareTo b = (if a.toNat < b.toNat then -1 else if b.toNat < a.toNat then 1 else 0) ∧
    a.bits = (if a.toNat = 0 then 0 else a.toNat.log2 + 1) := by
  have hneg : (a.neg.toNat : Int) = -(a.toNat : Int) % 2 ^ 256 := by
    have hsub := natCast_sub_mod (x := 0) a.toNat_lt.le
    rw [Nat.zero_add] at hsub
    rw [toNat_neg, hsub]
    simp
  refine ⟨toNat_add a b, ?_, hneg, toNat_mul a b, ?_, map_toNat_div a b, toNat_shl a shift,
    toNat_shr a shift, toNat_inc a, ?_, compareTo_eq a b, bits_eq a⟩
  · rw [toNat_sub]
    exact natCast_sub_mod b.toNat_lt.le
  · rw [toNat_mulUInt32, Nat.mul_comm]
  · rw [toNat_dec]
    exact natCast_sub_mod (by decide)

end BaseUint

end VBitcoin
