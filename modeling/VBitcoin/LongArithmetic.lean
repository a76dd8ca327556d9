import Mathlib

/-!
**Long arithmetic on machine words** — numbers of a fixed number of digits, the lowest first,
added and multiplied by one digit with carries, and divided bit by bit.  The word has to hold
the product of two digits and a carry; then only what carries out of the last digit is lost.
-/

namespace VBitcoin.LongArithmetic

open List

variable {base word : Nat}

/-! ### Digits -/

def digits (base : Nat) : Nat → Nat → List Nat
  | 0, _ => []
  | width + 1, n => n % base :: digits base width (n / base)

theorem length_digits : ∀ (width n : Nat), (digits base width n).length = width
  | 0, _ => rfl
  | width + 1, n => by rw [digits, length_cons, length_digits width]

theorem digits_lt (hbase : 0 < base) : ∀ (width n : Nat), ∀ d ∈ digits base width n, d < base
  | 0, _, _, h => absurd h not_mem_nil
  | width + 1, n, d, h => by
    rcases mem_cons.mp h with rfl | h
    · exact Nat.mod_lt n hbase
    · exact digits_lt hbase width _ d h

theorem ofDigits_digits : ∀ (width n : Nat),
    Nat.ofDigits base (digits base width n) = n % base ^ width
  | 0, n => by simp [digits, Nat.mod_one]
  | width + 1, n => by
    rw [digits, Nat.ofDigits_cons, ofDigits_digits width, Nat.pow_succ', Nat.mod_mul]

/-! ### Sums that carry -/

/-- Addition, with what is carried into the lowest digit. -/
def addDigits (base word : Nat) : Nat → List Nat → List Nat → List Nat
  | carry, a :: as, b :: bs =>
    let n := (carry + a + b) % word
    n % base :: addDigits base word (n / base) as bs
  | _, _, _ => []

/-- Multiplication by one digit, with what is carried into the lowest one. -/
def mulDigit (base word factor : Nat) : Nat → List Nat → List Nat
  | _, [] => []
  | carry, d :: ds =>
    let n := (carry + factor * d) % word
    n % base :: mulDigit base word factor (n / base) ds

theorem length_addDigits : ∀ {as bs : List Nat} (carry : Nat), as.length = bs.length →
    (addDigits base word carry as bs).length = as.length
  | [], [], _, _ => rfl
  | _ :: _, _ :: _, _, h => congrArg (· + 1) (length_addDigits _ (Nat.succ.inj h))

theorem addDigits_lt (hbase : 0 < base) : ∀ {as bs : List Nat} (carry : Nat),
    as.length = bs.length → ∀ d ∈ addDigits base word carry as bs, d < base
  | [], [], _, _, _, hd => absurd hd not_mem_nil
  | _ :: _, _ :: _, _, h, d, hd => by
    rcases mem_cons.mp hd with rfl | hd
    · exact Nat.mod_lt _ hbase
    · exact addDigits_lt hbase _ (Nat.succ.inj h) d hd

theorem length_mulDigit (factor : Nat) : ∀ (ds : List Nat) (carry : Nat),
    (mulDigit base word factor carry ds).length = ds.length
  | [], _ => rfl
  | _ :: ds, _ => congrArg (· + 1) (length_mulDigit factor ds _)

theorem mulDigit_lt (hbase : 0 < base) (factor : Nat) : ∀ (ds : List Nat) (carry : Nat),
    ∀ d ∈ mulDigit base word factor carry ds, d < base
  | [], _, _, hd => absurd hd not_mem_nil
  | _ :: ds, _, d, hd => by
    rcases mem_cons.mp hd with rfl | hd
    · exact Nat.mod_lt _ hbase
    · exact mulDigit_lt hbase factor ds _ d hd

theorem carry_out (n rest width : Nat) :
    n % base + base * ((n / base + rest) % base ^ width) = (n + base * rest) % base ^ (width + 1) := by
  have hsplit : n + base * rest = n % base + base * (n / base + rest) := by
    rw [Nat.mul_add, ← Nat.add_assoc, Nat.mod_add_div]
  rcases Nat.eq_zero_or_pos base with rfl | hbase
  · simp
  · rw [hsplit, Nat.pow_succ', Nat.mod_mul, Nat.add_mul_mod_self_left, Nat.mod_mod,
      Nat.add_mul_div_left _ _ hbase, Nat.div_eq_of_lt (Nat.mod_lt n hbase), Nat.zero_add]

theorem ofDigits_addDigits (hword : base * base ≤ word) :
    ∀ {as bs : List Nat} {carry : Nat}, (∀ a ∈ as, a < base) → (∀ b ∈ bs, b < base) →
      carry < base → as.length = bs.length →
      Nat.ofDigits base (addDigits base word carry as bs) =
        (carry + Nat.ofDigits base as + Nat.ofDigits base bs) % base ^ as.length
  | [], [], carry, _, _, _, _ => by simp [addDigits, Nat.mod_one]
  | a :: as, b :: bs, carry, has, hbs, hcarry, hlength => by
    have ha : a < base := has a mem_cons_self
    have hb : b < base := hbs b mem_cons_self
    have hsquare : 3 * base ≤ base * base + 2 := by
      rcases Nat.lt_or_ge base 3 with hsmall | hlarge
      · interval_cases base <;> decide
      · exact Nat.le_add_right_of_le (Nat.mul_le_mul_right base hlarge)
    have hn : carry + a + b < base * base := by omega
    have ih := ofDigits_addDigits hword (forall_mem_cons.mp has).2
      (forall_mem_cons.mp hbs).2 (Nat.div_lt_of_lt_mul hn)
      (Nat.succ.inj hlength)
    simp only [addDigits]
    rw [Nat.mod_eq_of_lt (Nat.lt_of_lt_of_le hn hword), Nat.ofDigits_cons, ih,
      Nat.add_assoc (_ / base), carry_out, Nat.ofDigits_cons, Nat.ofDigits_cons, length_cons]
    congr 1
    ring

theorem ofDigits_mulDigit (hword : base * base ≤ word) {factor : Nat} (hfactor : factor < base) :
    ∀ {ds : List Nat} {carry : Nat}, (∀ d ∈ ds, d < base) → carry < base →
      Nat.ofDigits base (mulDigit base word factor carry ds) =
        (carry + factor * Nat.ofDigits base ds) % base ^ ds.length
  | [], carry, _, _ => by simp [mulDigit, Nat.mod_one]
  | d :: ds, carry, hds, hcarry => by
    have hd : d < base := hds d mem_cons_self
    have hn : carry + factor * d < base * base := by nlinarith
    have ih := ofDigits_mulDigit hword hfactor (fun d' hd' => hds d' (mem_cons_of_mem d hd'))
      (Nat.div_lt_of_lt_mul hn)
    simp only [mulDigit]
    rw [Nat.mod_eq_of_lt (Nat.lt_of_lt_of_le hn hword), Nat.ofDigits_cons, ih, carry_out,
      Nat.ofDigits_cons, length_cons]
    congr 1
    ring

/-! ### Division -/

section Division

variable {w : Nat}

/-- A bit of the quotient for each of the steps, the highest first. -/
def divLoop : Nat → BitVec w → BitVec w → BitVec w → BitVec w
  | 0, _, _, quotient => quotient
  | shift + 1, num, div, quotient =>
    if div ≤ num then divLoop shift (num - div) (div >>> 1) (quotient ||| 1#w <<< shift)
    else divLoop shift num (div >>> 1) quotient

theorem toNat_one_shiftLeft {shift : Nat} (hshift : 2 ^ shift < 2 ^ w) :
    (1#w <<< shift).toNat = 2 ^ shift := by
  rw [BitVec.toNat_shiftLeft, Nat.shiftLeft_eq, BitVec.toNat_ofNat, Nat.mod_mul_mod, Nat.one_mul,
    Nat.mod_eq_of_lt hshift]

theorem toNat_or_bit {quotient : BitVec w} {shift : Nat} (hshift : 2 ^ shift < 2 ^ w)
    (hlow : 2 ^ (shift + 1) ∣ quotient.toNat) :
    (quotient ||| 1#w <<< shift).toNat = quotient.toNat + 2 ^ shift := by
  obtain ⟨high, hhigh⟩ := hlow
  rw [BitVec.toNat_or, toNat_one_shiftLeft hshift, hhigh]
  exact (Nat.two_pow_add_eq_or_of_lt (Nat.pow_lt_pow_right (by decide) (Nat.lt_succ_self _)) _).symm

/-- With the divisor shifted to the first bit of the quotient. -/
theorem toNat_divLoop {divisor : Nat} (hpos : 0 < divisor) :
    ∀ {steps : Nat} {num div quotient : BitVec w},
      (∀ shift, steps = shift + 1 → div.toNat = divisor * 2 ^ shift) →
      num.toNat < divisor * 2 ^ steps → 2 ^ steps ∣ quotient.toNat →
      (divLoop steps num div quotient).toNat = quotient.toNat + num.toNat / divisor
  | 0, num, div, quotient, _, hnum, _ => by
    rw [Nat.pow_zero, Nat.mul_one] at hnum
    rw [divLoop, Nat.div_eq_of_lt hnum, Nat.add_zero]
  | shift + 1, num, div, quotient, hdiv, hnum, hlow => by
    have hd : div.toNat = divisor * 2 ^ shift := hdiv shift rfl
    have hnext : ∀ shift', shift = shift' + 1 → (div >>> 1).toNat = divisor * 2 ^ shift' := by
      rintro shift' rfl
      rw [BitVec.toNat_ushiftRight, hd, Nat.shiftRight_eq_div_pow, Nat.pow_one, Nat.pow_succ,
        ← Nat.mul_assoc, Nat.mul_div_cancel _ (by decide)]
    have hhalf : 2 ^ shift ∣ quotient.toNat := Nat.dvd_trans (Nat.pow_dvd_pow 2 (Nat.le_succ _)) hlow
    rw [Nat.pow_succ, ← Nat.mul_assoc] at hnum
    rw [divLoop]
    split
    · rename_i hle
      have hle' : divisor * 2 ^ shift ≤ num.toNat := by rwa [BitVec.le_def, hd] at hle
      have hsub : (num - div).toNat = num.toNat - divisor * 2 ^ shift := by
        rw [BitVec.toNat_sub_of_le hle, hd]
      have hshift : 2 ^ shift < 2 ^ w := by
        have := Nat.le_mul_of_pos_left (2 ^ shift) hpos
        have := num.isLt
        omega
      have hbit := toNat_or_bit hshift hlow
      rw [toNat_divLoop hpos hnext (by omega) (by rw [hbit]; exact Nat.dvd_add hhalf (Nat.dvd_refl _)),
        hbit, hsub, Nat.add_assoc, Nat.add_comm (2 ^ shift), ← Nat.add_mul_div_left _ _ hpos,
        Nat.sub_add_cancel hle']
    · rename_i hgt
      have hlt : num.toNat < divisor * 2 ^ shift := by
        rw [BitVec.le_def, hd] at hgt
        omega
      exact toNat_divLoop hpos hnext hlt hhalf

end Division

end VBitcoin.LongArithmetic
