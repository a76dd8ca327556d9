import VBitcoin.LongArithmetic
import VBitcoin.Radix

/-!
**More long arithmetic** — counting up and down, negation, the product of two numbers, shifts
across digits, comparison, and the place of the highest bit.  Sums and products are followed by
the number that the digits stand for, shifts bit by bit (`testBit_ofDigits`).
-/

namespace VBitcoin.LongArithmetic

open Nat List

variable {base word : Nat}

/-! ### Counting and negation -/

def incDigits (base : Nat) : List Nat → List Nat
  | [] => []
  | d :: ds =>
    if (d + 1) % base = 0 then (d + 1) % base :: incDigits base ds else (d + 1) % base :: ds

/-- `--`: digits that become the largest one pass the borrow on. -/
def decDigits (base : Nat) : List Nat → List Nat
  | [] => []
  | d :: ds =>
    if (d + (base - 1)) % base = base - 1 then (d + (base - 1)) % base :: decDigits base ds
    else (d + (base - 1)) % base :: ds

def complement (base : Nat) (ds : List Nat) : List Nat := ds.map (base - 1 - ·)

variable {ds pn b : List Nat} {j : Nat}

theorem ofDigits_lt (hbase : 1 < base) (h : ∀ d ∈ ds, d < base) :
    Nat.ofDigits base ds < base ^ ds.length :=
  ofDigits_lt_base_pow_length hbase h

theorem length_incDigits (ds : List Nat) : (incDigits base ds).length = ds.length := by
  induction ds with
  | nil => rfl
  | cons d ds ih =>
    rw [incDigits]
    split
    · rw [length_cons, ih, length_cons]
    · rfl

theorem incDigits_lt (hbase : 1 < base) (h : ∀ d ∈ ds, d < base) :
    ∀ d ∈ incDigits base ds, d < base := by
  induction ds with
  | nil => exact h
  | cons d ds ih =>
    have hrest := (forall_mem_cons.mp h).2
    have hfirst : (d + 1) % base < base := mod_lt _ (zero_lt_of_lt hbase)
    rw [incDigits]
    split
    · exact forall_mem_cons.mpr ⟨hfirst, ih hrest⟩
    · exact forall_mem_cons.mpr ⟨hfirst, hrest⟩

theorem ofDigits_incDigits (hbase : 1 < base) (h : ∀ d ∈ ds, d < base) :
    Nat.ofDigits base (incDigits base ds) = (Nat.ofDigits base ds + 1) % base ^ ds.length := by
  induction ds with
  | nil => rw [incDigits, length_nil, Nat.pow_zero, mod_one, ofDigits_nil]
  | cons d ds ih =>
    obtain ⟨hd, hrest⟩ := forall_mem_cons.mp h
    have hlt := ofDigits_lt hbase hrest
    rw [incDigits, ofDigits_cons, length_cons, Nat.pow_succ']
    split
    · rename_i hzero
      have hlast : d + 1 = base := by
        by_contra hne
        rw [mod_eq_of_lt (by omega)] at hzero
        cases hzero
      have hcarry : d + base * Nat.ofDigits base ds + 1 = base * (Nat.ofDigits base ds + 1) := by
        rw [mul_succ]
        omega
      rw [ofDigits_cons, ih hrest, hzero, Nat.zero_add, hcarry, mul_mod_mul_left]
    · rename_i hne
      have hless : d + 1 < base := by
        by_contra hge
        rw [show d + 1 = base by omega, mod_self] at hne
        exact hne rfl
      have hfits : d + 1 + base * Nat.ofDigits base ds < base * base ^ ds.length := calc
        d + 1 + base * Nat.ofDigits base ds < base + base * Nat.ofDigits base ds := by omega
        _ = base * (Nat.ofDigits base ds + 1) := by rw [mul_succ, Nat.add_comm]
        _ ≤ base * base ^ ds.length := Nat.mul_le_mul_left base hlt
      rw [ofDigits_cons, mod_eq_of_lt hless, Nat.add_right_comm d 1,
        mod_eq_of_lt (by omega)]

theorem complement_lt (hbase : 1 < base) (ds : List Nat) : ∀ d ∈ complement base ds, d < base := by
  intro d hd
  obtain ⟨x, -, rfl⟩ := mem_map.mp hd
  omega

theorem length_complement (ds : List Nat) : (complement base ds).length = ds.length := length_map _

theorem ofDigits_complement (hbase : 1 < base) (h : ∀ d ∈ ds, d < base) :
    Nat.ofDigits base (complement base ds) + Nat.ofDigits base ds = base ^ ds.length - 1 := by
  induction ds with
  | nil => rfl
  | cons d ds ih =>
    obtain ⟨hd, hds⟩ := forall_mem_cons.mp h
    have ih := ih hds
    have hpow : 0 < base ^ ds.length := Nat.pow_pos (zero_lt_of_lt hbase)
    have hscale : base * (base ^ ds.length - 1) + base = base * base ^ ds.length := by
      rw [← mul_succ, succ_eq_add_one, Nat.sub_add_cancel hpow]
    have hrest : base * Nat.ofDigits base (complement base ds) + base * Nat.ofDigits base ds =
        base * (base ^ ds.length - 1) := by
      rw [← Nat.mul_add, ih]
    simp only [complement, map_cons, ofDigits_cons, length_cons, Nat.pow_succ'] at *
    omega

/-- Counting down is counting up on the complement. -/
theorem decDigits_eq (hbase : 1 < base) (h : ∀ d ∈ ds, d < base) :
    decDigits base ds = complement base (incDigits base (complement base ds)) := by
  induction ds with
  | nil => rfl
  | cons d ds ih =>
    obtain ⟨hd, hds⟩ := forall_mem_cons.mp h
    have hback : (ds.map (base - 1 - ·)).map (base - 1 - ·) = ds := by
      rw [map_map]
      refine (map_congr_left fun x hx => ?_).trans (map_id ds)
      have hx := hds x hx
      simp only [Function.comp_apply, id_eq]
      omega
    have hfirst : (d + (base - 1)) % base = base - 1 - (base - 1 - d + 1) % base := by
      rcases Nat.eq_zero_or_pos d with rfl | hpos
      · rw [Nat.zero_add, mod_eq_of_lt (by omega), Nat.sub_zero, Nat.sub_add_cancel hbase.le, mod_self,
          Nat.sub_zero]
      · rw [show d + (base - 1) = d - 1 + base by omega, add_mod_right, mod_eq_of_lt (by omega),
          mod_eq_of_lt (by omega)]
        omega
    have hle : (base - 1 - d + 1) % base < base := mod_lt _ (zero_lt_of_lt hbase)
    simp only [complement, map_cons, decDigits, incDigits, hfirst] at ih ⊢
    split
    · rw [if_pos (by omega), map_cons, ih hds]
    · rw [if_neg (by omega), map_cons, hback]

theorem length_decDigits (hbase : 1 < base) (h : ∀ d ∈ ds, d < base) :
    (decDigits base ds).length = ds.length := by
  rw [decDigits_eq hbase h, length_complement, length_incDigits, length_complement]

theorem decDigits_lt (hbase : 1 < base) (h : ∀ d ∈ ds, d < base) :
    ∀ d ∈ decDigits base ds, d < base := by
  rw [decDigits_eq hbase h]
  exact complement_lt hbase _

theorem ofDigits_decDigits (hbase : 1 < base) (h : ∀ d ∈ ds, d < base) :
    Nat.ofDigits base (decDigits base ds) =
      (Nat.ofDigits base ds + (base ^ ds.length - 1)) % base ^ ds.length := by
  have hlt := ofDigits_lt hbase h
  have hcomp := ofDigits_complement hbase h
  have hinc := ofDigits_incDigits hbase (complement_lt hbase ds)
  have hdec := ofDigits_complement hbase (incDigits_lt hbase (complement_lt hbase ds))
  rw [length_complement] at hinc
  rw [length_incDigits, length_complement] at hdec
  rw [decDigits_eq hbase h]
  rcases Nat.eq_zero_or_pos (Nat.ofDigits base ds) with hzero | hpos
  · rw [show Nat.ofDigits base (complement base ds) + 1 = base ^ ds.length by omega, mod_self] at hinc
    rw [hzero, Nat.zero_add, mod_eq_of_lt (by omega)]
    omega
  · rw [mod_eq_of_lt (by omega)] at hinc
    rw [show Nat.ofDigits base ds + (base ^ ds.length - 1) = Nat.ofDigits base ds - 1 +
      base ^ ds.length by omega, add_mod_right, mod_eq_of_lt (by omega)]
    omega

/-! ### The product of two numbers -/

/-- A digit of the first factor times the second, added from its place on. -/
def mulRow (base word factor : Nat) : Nat → List Nat → List Nat → List Nat
  | carry, a :: as, b :: bs =>
    let n := (carry + a + factor * b) % word
    n % base :: mulRow base word factor (n / base) as bs
  | _, _, _ => []

def mulDigits (base word : Nat) (pn b : List Nat) : List Nat :=
  (List.range pn.length).foldl
    (fun a j => a.take j ++ mulRow base word (pn.getD j 0) 0 (a.drop j) b)
    (List.replicate pn.length 0)

theorem length_mulRow (factor : Nat) : ∀ (carry : Nat) (as bs : List Nat), as.length ≤ bs.length →
    (mulRow base word factor carry as bs).length = as.length
  | _, [], _, _ => by rw [mulRow]; exact nofun
  | carry, a :: as, b :: bs, h => by
    rw [mulRow, length_cons, length_mulRow factor _ as bs (le_of_succ_le_succ h),
      length_cons]

theorem mulRow_lt (hbase : 0 < base) (factor : Nat) : ∀ (carry : Nat) (as bs : List Nat),
    ∀ d ∈ mulRow base word factor carry as bs, d < base
  | _, [], _, _, h => by
    rw [mulRow] at h <;> cases h
  | _, _ :: _, [], _, h => by
    rw [mulRow] at h <;> cases h
  | carry, a :: as, b :: bs, d, h => by
    rw [mulRow] at h
    rcases mem_cons.mp h with rfl | h
    · exact mod_lt _ hbase
    · exact mulRow_lt hbase factor _ as bs d h

theorem ofDigits_mulRow (hword : base * base ≤ word) {factor : Nat} (hfactor : factor < base) :
    ∀ {as bs : List Nat} {carry : Nat}, (∀ a ∈ as, a < base) → (∀ b ∈ bs, b < base) →
      carry < base → as.length ≤ bs.length →
      Nat.ofDigits base (mulRow base word factor carry as bs) =
        (carry + Nat.ofDigits base as + factor * Nat.ofDigits base bs) % base ^ as.length
  | [], bs, carry, _, _, _, _ => by
    rw [mulRow, length_nil, Nat.pow_zero, mod_one, ofDigits_nil]
    exact nofun
  | a :: as, b :: bs, carry, has, hbs, hcarry, hlength => by
    obtain ⟨ha, has⟩ := forall_mem_cons.mp has
    obtain ⟨hb, hbs⟩ := forall_mem_cons.mp hbs
    have hn : carry + a + factor * b < base * base := by nlinarith
    have ih := ofDigits_mulRow hword hfactor has hbs (Nat.div_lt_of_lt_mul hn)
      (le_of_succ_le_succ hlength)
    simp only [mulRow]
    rw [mod_eq_of_lt (Nat.lt_of_lt_of_le hn hword), ofDigits_cons, ih,
      Nat.add_assoc (_ / base), carry_out, ofDigits_cons, ofDigits_cons, length_cons]
    congr 1
    ring

theorem add_high_mod (low high : Nat) {width : Nat} (hlow : low < base ^ j) (hj : j ≤ width) :
    low + base ^ j * (high % base ^ (width - j)) = (low + base ^ j * high) % base ^ width := by
  have hsplit : base ^ width = base ^ j * base ^ (width - j) := by
    rw [← Nat.pow_add, Nat.add_sub_cancel' hj]
  have hpos : 0 < base ^ j := zero_lt_of_lt hlow
  rw [hsplit, mod_mul, add_mul_mod_self_left, mod_eq_of_lt hlow,
    add_mul_div_left _ _ hpos, div_eq_of_lt hlow, Nat.zero_add]

theorem ofDigits_take_succ (ds : List Nat) (hj : j < ds.length) :
    Nat.ofDigits base (ds.take (j + 1)) =
      Nat.ofDigits base (ds.take j) + base ^ j * ds.getD j 0 := by
  rw [take_add_one, ofDigits_append, length_take_of_le hj.le,
    getElem?_eq_getElem hj, Option.toList_some, ofDigits_singleton,
    getD_eq_getElem ds 0 hj]

structure RowsDone (base : Nat) (pn b a : List Nat) (j : Nat) : Prop where
  length_eq : a.length = pn.length
  lt : ∀ d ∈ a, d < base
  ofDigits_eq : Nat.ofDigits base a =
    Nat.ofDigits base (pn.take j) * Nat.ofDigits base b % base ^ pn.length

section Rows

variable (hbase : 1 < base) (hword : base * base ≤ word) (hpn : ∀ d ∈ pn, d < base)
  (hb : ∀ d ∈ b, d < base) (hlength : pn.length = b.length)

include hbase hword hpn hb hlength

theorem RowsDone.row {a : List Nat} (hj : j < pn.length) (h : RowsDone base pn b a j) :
    RowsDone base pn b
      (a.take j ++ mulRow base word (pn.getD j 0) 0 (a.drop j) b) (j + 1) := by
  have hja : j ≤ a.length := h.length_eq ▸ hj.le
  have htake : (a.take j).length = j := length_take_of_le hja
  have hdrop : (a.drop j).length = pn.length - j := by rw [length_drop, h.length_eq]
  have hle : (a.drop j).length ≤ b.length := by omega
  have hfactor : pn.getD j 0 < base := by
    rw [getD_eq_getElem pn 0 hj]
    exact hpn _ (getElem_mem hj)
  have hlow : Nat.ofDigits base (a.take j) < base ^ j := by
    have hlt := ofDigits_lt hbase fun d hd => h.lt d (mem_of_mem_take (i := j) hd)
    rwa [htake] at hlt
  have hparts : Nat.ofDigits base (a.take j) + base ^ j * Nat.ofDigits base (a.drop j) =
      Nat.ofDigits base a := by
    conv_rhs => rw [← take_append_drop j a, ofDigits_append, htake]
  refine ⟨?_, ?_, ?_⟩
  · rw [length_append, htake, length_mulRow _ _ _ _ hle, hdrop]
    omega
  · intro d hd
    rcases mem_append.mp hd with hd | hd
    · exact h.lt d (mem_of_mem_take hd)
    · exact mulRow_lt (zero_lt_of_lt hbase) _ _ _ _ d hd
  · rw [ofDigits_append, htake,
      ofDigits_mulRow hword hfactor (fun d hd => h.lt d (mem_of_mem_drop hd)) hb
        (zero_lt_of_lt hbase) hle, hdrop, Nat.zero_add, add_high_mod _ _ hlow hj.le,
      Nat.mul_add, ← Nat.add_assoc, hparts, h.ofDigits_eq, mod_add_mod,
      ofDigits_take_succ pn hj]
    congr 1
    ring

theorem rowsDone_mulDigits : RowsDone base pn b (mulDigits base word pn b) pn.length := by
  have hrows : ∀ j, j ≤ pn.length → RowsDone base pn b ((List.range j).foldl
      (fun a j => a.take j ++ mulRow base word (pn.getD j 0) 0 (a.drop j) b)
      (List.replicate pn.length 0)) j := by
    intro j
    induction j with
    | zero =>
      intro _
      refine ⟨length_replicate, fun d hd => ?_, ?_⟩
      · rw [eq_of_mem_replicate hd]
        exact zero_lt_of_lt hbase
      · rw [range_zero, foldl_nil, ofDigits_replicate_zero, take_zero,
          ofDigits_nil, Nat.zero_mul, zero_mod]
    | succ j ih =>
      intro hj
      rw [range_succ, foldl_append]
      exact (ih (le_of_succ_le hj)).row hbase hword hpn hb hlength hj
  exact hrows pn.length (Nat.le_refl _)

/-- **The rows make the product**, as far as it fits. -/
theorem ofDigits_mulDigits :
    Nat.ofDigits base (mulDigits base word pn b) =
      Nat.ofDigits base pn * Nat.ofDigits base b % base ^ pn.length := by
  have hdone := (rowsDone_mulDigits hbase hword hpn hb hlength).ofDigits_eq
  rwa [take_length] at hdone

end Rows

/-! ### Shifts -/

section Shifts

variable {w : Nat}

def orAt (pn : List Nat) (p v : Nat) : List Nat := pn.set p (pn.getD p 0 ||| v)

/-- A loop of `|=` on single digits. -/
def orAll (pn : List Nat) (parts : List (Nat × Nat)) : List Nat :=
  parts.foldl (fun pn part => orAt pn part.1 part.2) pn

/-- What `<<=` puts into the result for one digit: it falls into two places. -/
def leftParts (w k s : Nat) (a : List Nat) (i : Nat) : List (Nat × Nat) :=
  (if i + k + 1 < a.length ∧ s ≠ 0 then [(i + k + 1, a.getD i 0 >>> (w - s))] else []) ++
    (if i + k < a.length then [(i + k, (a.getD i 0 <<< s) % 2 ^ w)] else [])

/-- What `>>=` puts into the result for one digit. -/
def rightParts (w k s : Nat) (a : List Nat) (i : Nat) : List (Nat × Nat) :=
  (if k + 1 ≤ i ∧ s ≠ 0 then [(i - k - 1, (a.getD i 0 <<< (w - s)) % 2 ^ w)] else []) ++
    (if k ≤ i then [(i - k, a.getD i 0 >>> s)] else [])

variable (parts : List Nat → Nat → List (Nat × Nat))

def shiftDigits (a : List Nat) : List Nat :=
  orAll (List.replicate a.length 0) ((List.range a.length).flatMap (parts a))

def shiftLeftDigits (w shift : Nat) (a : List Nat) : List Nat :=
  shiftDigits (leftParts w (shift / w) (shift % w)) a

def shiftRightDigits (w shift : Nat) (a : List Nat) : List Nat :=
  shiftDigits (rightParts w (shift / w) (shift % w)) a

variable {ds pn a : List Nat} {p : Nat}

theorem getD_lt (h : ∀ d ∈ ds, d < 2 ^ w) (p : Nat) : ds.getD p 0 < 2 ^ w := by
  by_cases hp : p < ds.length
  · rw [getD_eq_getElem ds 0 hp]
    exact h _ (getElem_mem hp)
  · rw [getD_eq_default ds 0 (Nat.not_lt.mp hp)]
    exact Nat.two_pow_pos w

variable {q k s i : Nat} {part : Nat × Nat}

theorem testBit_ofDigits (h : ∀ d ∈ ds, d < 2 ^ w) (p : Nat) (hq : q < w) :
    (Nat.ofDigits (2 ^ w) ds).testBit (w * p + q) = (ds.getD p 0).testBit q := by
  induction ds generalizing p with
  | nil => rw [ofDigits_nil, zero_testBit, getD_nil, zero_testBit]
  | cons d ds ih =>
    obtain ⟨hd, hds⟩ := forall_mem_cons.mp h
    rw [ofDigits_cons, Nat.add_comm, testBit_two_pow_mul_add _ hd]
    cases p with
    | zero => rw [Nat.mul_zero, Nat.zero_add, if_pos hq, getD_cons_zero]
    | succ p =>
      rw [if_neg (by rw [mul_succ]; omega), getD_cons_succ, ← ih hds p]
      congr 1
      rw [mul_succ]
      omega

theorem length_orAll (pn : List Nat) (parts : List (Nat × Nat)) :
    (orAll pn parts).length = pn.length := by
  induction parts generalizing pn with
  | nil => rfl
  | cons part parts ih => exact (ih _).trans length_set

theorem orAll_lt {parts : List (Nat × Nat)} (hpn : ∀ d ∈ pn, d < 2 ^ w)
    (h : ∀ part ∈ parts, part.2 < 2 ^ w) : ∀ d ∈ orAll pn parts, d < 2 ^ w := by
  induction parts generalizing pn with
  | nil => exact hpn
  | cons part parts ih =>
    apply ih _ (forall_mem_cons.mp h).2
    intro d hd
    rcases mem_or_eq_of_mem_set hd with hd | rfl
    · exact hpn d hd
    · exact or_lt_two_pow (getD_lt hpn _) (h part mem_cons_self)

theorem testBit_orAt (hp : p < pn.length) (part : Nat × Nat) (q : Nat) :
    ((orAt pn part.1 part.2).getD p 0).testBit q =
      ((pn.getD p 0).testBit q || (part.1 == p && part.2.testBit q)) := by
  have hp' : p < (pn.set part.1 (pn.getD part.1 0 ||| part.2)).length := by rwa [length_set]
  rw [orAt, getD_eq_getElem _ 0 hp']
  by_cases heq : part.1 = p
  · subst heq
    rw [getElem_set_self, testBit_or, beq_self_eq_true, Bool.true_and]
  · rw [getElem_set_ne heq, getD_eq_getElem pn 0 hp, beq_eq_false_iff_ne.mpr heq,
      Bool.false_and, Bool.or_false]

theorem testBit_orAll (hp : p < pn.length) (parts : List (Nat × Nat))
    (q : Nat) : ((orAll pn parts).getD p 0).testBit q =
      ((pn.getD p 0).testBit q || parts.any fun part => part.1 == p && part.2.testBit q) := by
  induction parts generalizing pn with
  | nil => rw [orAll, foldl_nil, any_nil, Bool.or_false]
  | cons part parts ih =>
    have hp' : p < (orAt pn part.1 part.2).length := by rwa [orAt, length_set]
    rw [any_cons, ← Bool.or_assoc, ← testBit_orAt hp]
    exact ih hp'

theorem shiftDigits_lt {parts : List Nat → Nat → List (Nat × Nat)}
    (h : ∀ i, ∀ part ∈ parts a i, part.2 < 2 ^ w) : ∀ d ∈ shiftDigits parts a, d < 2 ^ w := by
  apply orAll_lt
  · intro d hd
    rw [eq_of_mem_replicate hd]
    exact Nat.two_pow_pos w
  · intro part hpart
    obtain ⟨i, -, hi⟩ := mem_flatMap.mp hpart
    exact h i part hi

theorem length_shiftDigits (a : List Nat) : (shiftDigits parts a).length = a.length := by
  rw [shiftDigits, length_orAll, length_replicate]

theorem testBit_shiftDigits (hp : p < a.length) (q : Nat) :
    ((shiftDigits parts a).getD p 0).testBit q = true ↔
      ∃ i < a.length, ∃ part ∈ parts a i, part.1 = p ∧ part.2.testBit q = true := by
  have hzero : (List.replicate a.length 0).getD p 0 = 0 := getD_replicate _ hp
  rw [shiftDigits, testBit_orAll (by rwa [length_replicate]), hzero, zero_testBit,
    Bool.false_or, any_eq_true]
  constructor
  · rintro ⟨part, hpart, hbit⟩
    obtain ⟨i, hi, hpart⟩ := mem_flatMap.mp hpart
    rw [Bool.and_eq_true, beq_iff_eq] at hbit
    exact ⟨i, mem_range.mp hi, part, hpart, hbit⟩
  · rintro ⟨i, hi, part, hpart, hbit⟩
    refine ⟨part, mem_flatMap.mpr ⟨i, mem_range.mpr hi, hpart⟩, ?_⟩
    rwa [Bool.and_eq_true, beq_iff_eq]

theorem ofDigits_eq_of_testBit (hw : 0 < w) (h : ∀ d ∈ ds, d < 2 ^ w) {n : Nat}
    (hn : n < (2 ^ w) ^ ds.length)
    (hbits : ∀ p < ds.length, ∀ q < w, (ds.getD p 0).testBit q = n.testBit (w * p + q)) :
    Nat.ofDigits (2 ^ w) ds = n := by
  have hbase : 1 < 2 ^ w := Nat.one_lt_two_pow hw.ne'
  have hlt := ofDigits_lt hbase h
  rw [← Nat.pow_mul] at hlt hn
  apply eq_of_testBit_eq
  intro j
  rcases Nat.lt_or_ge j (w * ds.length) with hj | hj
  · rw [← div_add_mod j w, testBit_ofDigits h _ (mod_lt j hw)]
    exact hbits _ (Nat.div_lt_of_lt_mul hj) _ (mod_lt j hw)
  · have hpow : 2 ^ (w * ds.length) ≤ 2 ^ j := Nat.pow_le_pow_right (by decide) hj
    rw [testBit_lt_two_pow (hlt.trans_le hpow), testBit_lt_two_pow (hn.trans_le hpow)]

theorem lt_of_testBit {d : Nat} (hd : d < 2 ^ w) (h : d.testBit q = true) : q < w := by
  by_contra hq
  rw [testBit_lt_two_pow (hd.trans_le (Nat.pow_le_pow_right (by decide)
    (Nat.not_lt.mp hq)))] at h
  cases h

theorem mem_leftParts :
    part ∈ leftParts w k s a i ↔
      (i + k + 1 < a.length ∧ s ≠ 0 ∧ part = (i + k + 1, a.getD i 0 >>> (w - s))) ∨
        (i + k < a.length ∧ part = (i + k, (a.getD i 0 <<< s) % 2 ^ w)) := by
  rw [leftParts, mem_append]
  split <;> split <;> simp_all

theorem mem_rightParts :
    part ∈ rightParts w k s a i ↔
      (k + 1 ≤ i ∧ s ≠ 0 ∧ part = (i - k - 1, (a.getD i 0 <<< (w - s)) % 2 ^ w)) ∨
        (k ≤ i ∧ part = (i - k, a.getD i 0 >>> s)) := by
  rw [rightParts, mem_append]
  split <;> split <;> simp_all

theorem shiftLeftDigits_lt (h : ∀ d ∈ a, d < 2 ^ w) (shift : Nat) :
    ∀ d ∈ shiftLeftDigits w shift a, d < 2 ^ w := by
  apply shiftDigits_lt
  intro i part hpart
  rcases mem_leftParts.mp hpart with ⟨-, -, rfl⟩ | ⟨-, rfl⟩
  · exact (shiftRight_le _ _).trans_lt (getD_lt h i)
  · exact mod_lt _ (Nat.two_pow_pos w)

theorem shiftRightDigits_lt (h : ∀ d ∈ a, d < 2 ^ w) (shift : Nat) :
    ∀ d ∈ shiftRightDigits w shift a, d < 2 ^ w := by
  apply shiftDigits_lt
  intro i part hpart
  rcases mem_rightParts.mp hpart with ⟨-, -, rfl⟩ | ⟨-, rfl⟩
  · exact mod_lt _ (Nat.two_pow_pos w)
  · exact (shiftRight_le _ _).trans_lt (getD_lt h i)

/-- **`<<=` multiplies** by a power of two, as far as the product fits. -/
theorem ofDigits_shiftLeftDigits (hw : 0 < w) (h : ∀ d ∈ a, d < 2 ^ w)
    (shift : Nat) : Nat.ofDigits (2 ^ w) (shiftLeftDigits w shift a) =
      Nat.ofDigits (2 ^ w) a * 2 ^ shift % (2 ^ w) ^ a.length := by
  have hlength : (shiftLeftDigits w shift a).length = a.length := length_shiftDigits _ a
  have hs : shift % w < w := mod_lt shift hw
  have hshift : shift = w * (shift / w) + shift % w := (div_add_mod shift w).symm
  rw [← hlength]
  apply ofDigits_eq_of_testBit hw (shiftLeftDigits_lt h shift)
    (mod_lt _ (Nat.pow_pos (Nat.two_pow_pos w)))
  intro p hp q hq
  rw [hlength] at hp ⊢
  have hfits : w * p + q < w * a.length := calc
    w * p + q < w * p + w := Nat.add_lt_add_left hq _
    _ = w * (p + 1) := (mul_succ w p).symm
    _ ≤ w * a.length := Nat.mul_le_mul_left w hp
  rw [Bool.eq_iff_iff, shiftLeftDigits, testBit_shiftDigits _ hp, ← Nat.pow_mul,
    testBit_mod_two_pow, decide_eq_true hfits, Bool.true_and, testBit_mul_two_pow,
    Bool.and_eq_true, decide_eq_true_eq]
  generalize shift / w = k at *
  generalize shift % w = s at *
  subst hshift
  constructor
  · rintro ⟨i, -, part, hpart, rfl, hbit⟩
    rcases mem_leftParts.mp hpart with ⟨-, -, rfl⟩ | ⟨-, rfl⟩
    · rw [testBit_shiftRight] at hbit
      have hin : w - s + q < w := lt_of_testBit (getD_lt h i) hbit
      have hplace : w * (i + k + 1) + q = w * k + s + (w * i + (w - s + q)) := by
        simp only [Nat.mul_add, Nat.mul_one]
        omega
      rw [hplace, Nat.add_sub_cancel_left, testBit_ofDigits h i hin]
      exact ⟨Nat.le_add_right _ _, hbit⟩
    · rw [testBit_mod_two_pow, testBit_shiftLeft, Bool.and_eq_true, Bool.and_eq_true,
        decide_eq_true_eq, decide_eq_true_eq] at hbit
      obtain ⟨-, hsq, hbit⟩ := hbit
      have hplace : w * (i + k) + q = w * k + s + (w * i + (q - s)) := by
        simp only [Nat.mul_add]
        omega
      rw [hplace, Nat.add_sub_cancel_left, testBit_ofDigits h i (by omega)]
      exact ⟨Nat.le_add_right _ _, hbit⟩
  · rintro ⟨hle, hbit⟩
    -- the bit comes from the upper or from the lower part of a digit
    rcases Nat.lt_or_ge q s with hqs | hqs
    · have hkp : k + 1 ≤ p := by
        by_contra hpk
        have := Nat.mul_le_mul_left w (show p ≤ k by omega)
        omega
      obtain ⟨i, rfl⟩ := Nat.exists_eq_add_of_le hkp
      have hplace : w * (k + 1 + i) + q = w * k + s + (w * i + (w - s + q)) := by
        simp only [Nat.mul_add, Nat.mul_one]
        omega
      rw [hplace, Nat.add_sub_cancel_left, testBit_ofDigits h i (by omega)] at hbit
      refine ⟨i, by omega, _, mem_leftParts.mpr (.inl ⟨by omega, by omega, rfl⟩), ?_, ?_⟩
      · show i + k + 1 = k + 1 + i
        omega
      · rwa [testBit_shiftRight]
    · have hkp : k ≤ p := by
        by_contra hpk
        have := Nat.mul_le_mul_left w (show p + 1 ≤ k by omega)
        rw [mul_succ] at this
        omega
      obtain ⟨i, rfl⟩ := Nat.exists_eq_add_of_le hkp
      have hplace : w * (k + i) + q = w * k + s + (w * i + (q - s)) := by
        rw [Nat.mul_add]
        omega
      rw [hplace, Nat.add_sub_cancel_left, testBit_ofDigits h i (by omega)] at hbit
      refine ⟨i, by omega, _, mem_leftParts.mpr (.inr ⟨by omega, rfl⟩), Nat.add_comm i k, ?_⟩
      rw [testBit_mod_two_pow, testBit_shiftLeft, decide_eq_true hq, decide_eq_true hqs,
        Bool.true_and, Bool.true_and]
      exact hbit

/-- **`>>=` divides** by a power of two. -/
theorem ofDigits_shiftRightDigits (hw : 0 < w) (h : ∀ d ∈ a, d < 2 ^ w)
    (shift : Nat) : Nat.ofDigits (2 ^ w) (shiftRightDigits w shift a) =
      Nat.ofDigits (2 ^ w) a / 2 ^ shift := by
  have hlength : (shiftRightDigits w shift a).length = a.length := length_shiftDigits _ a
  have hs : shift % w < w := mod_lt shift hw
  have hshift : shift = w * (shift / w) + shift % w := (div_add_mod shift w).symm
  have hlt := ofDigits_lt (Nat.one_lt_two_pow hw.ne') h
  apply ofDigits_eq_of_testBit hw (shiftRightDigits_lt h shift)
  · rw [hlength]
    exact (Nat.div_le_self _ _).trans_lt hlt
  intro p hp q hq
  rw [hlength] at hp
  rw [Bool.eq_iff_iff, shiftRightDigits, testBit_shiftDigits _ hp, testBit_div_two_pow]
  generalize shift / w = k at *
  generalize shift % w = s at *
  subst hshift
  constructor
  · rintro ⟨i, -, part, hpart, rfl, hbit⟩
    rcases mem_rightParts.mp hpart with ⟨hki, -, rfl⟩ | ⟨hki, rfl⟩
    · rw [testBit_mod_two_pow, testBit_shiftLeft, Bool.and_eq_true, Bool.and_eq_true,
        decide_eq_true_eq, decide_eq_true_eq] at hbit
      obtain ⟨-, hsq, hbit⟩ := hbit
      obtain ⟨j, rfl⟩ := Nat.exists_eq_add_of_le hki
      have hplace : w * (k + 1 + j - k - 1) + q + (w * k + s) =
          w * (k + 1 + j) + (q - (w - s)) := by
        rw [show k + 1 + j - k - 1 = j by omega]
        simp only [Nat.mul_add, Nat.mul_one]
        omega
      rw [hplace, testBit_ofDigits h _ (by omega)]
      exact hbit
    · rw [testBit_shiftRight] at hbit
      have hin : s + q < w := lt_of_testBit (getD_lt h i) hbit
      obtain ⟨j, rfl⟩ := Nat.exists_eq_add_of_le hki
      have hplace : w * (k + j - k) + q + (w * k + s) = w * (k + j) + (s + q) := by
        rw [Nat.add_sub_cancel_left, Nat.mul_add]
        omega
      rw [hplace, testBit_ofDigits h _ hin]
      exact hbit
  · intro hbit
    rcases Nat.lt_or_ge (s + q) w with hqs | hqs
    · have hplace : w * p + q + (w * k + s) = w * (k + p) + (s + q) := by
        rw [Nat.mul_add]
        omega
      rw [hplace, testBit_ofDigits h _ hqs] at hbit
      have hin : k + p < a.length := by
        by_contra hout
        rw [getD_eq_default a 0 (Nat.not_lt.mp hout), zero_testBit] at hbit
        cases hbit
      refine ⟨k + p, hin, _, mem_rightParts.mpr (.inr ⟨Nat.le_add_right k p, rfl⟩),
        Nat.add_sub_cancel_left k p, ?_⟩
      rwa [testBit_shiftRight]
    · have hplace : w * p + q + (w * k + s) = w * (k + p + 1) + (q - (w - s)) := by
        simp only [Nat.mul_add, Nat.mul_one]
        omega
      rw [hplace, testBit_ofDigits h _ (by omega)] at hbit
      have hin : k + p + 1 < a.length := by
        by_contra hout
        rw [getD_eq_default a 0 (Nat.not_lt.mp hout), zero_testBit] at hbit
        cases hbit
      refine ⟨k + p + 1, hin, _, mem_rightParts.mpr (.inl ⟨by omega, by omega, rfl⟩), ?_, ?_⟩
      · show k + p + 1 - k - 1 = p
        omega
      · rw [testBit_mod_two_pow, testBit_shiftLeft, decide_eq_true hq,
          decide_eq_true (show q ≥ w - s by omega), Bool.true_and, Bool.true_and]
        exact hbit

end Shifts

/-! ### Comparison and the highest bit -/

def compareDigits : List Nat → List Nat → Int
  | a :: as, b :: bs => if a < b then -1 else if b < a then 1 else compareDigits as bs
  | _, _ => 0

/-- The loop over the bits of a digit that is not zero, down to the second one. -/
def digitBits (d : Nat) : Nat → Nat
  | 0 => 1
  | nbits + 1 => if d &&& 1 <<< (nbits + 1) ≠ 0 then nbits + 2 else digitBits d nbits

def highestBit (w : Nat) : List Nat → Nat
  | [] => 0
  | d :: ds => if d ≠ 0 then w * ds.length + digitBits d (w - 1) else highestBit w ds

theorem compareDigits_eq (hbase : 1 < base) : ∀ {as bs : List Nat}, as.length = bs.length →
    (∀ d ∈ as, d < base) → (∀ d ∈ bs, d < base) →
    compareDigits as bs = if Radix.value base as < Radix.value base bs then -1
      else if Radix.value base bs < Radix.value base as then 1 else 0
  | [], [], _, _, _ => rfl
  | a :: as, b :: bs, hlength, has, hbs => by
    have hlengths : as.length = bs.length := Nat.succ.inj hlength
    have has' := (forall_mem_cons.mp has).2
    have hbs' := (forall_mem_cons.mp hbs).2
    have hva := Radix.value_lt hbase has'
    have hvb := Radix.value_lt hbase hbs'
    rw [Radix.value_cons, Radix.value_cons, compareDigits]
    rw [hlengths] at hva ⊢
    -- a higher digit outweighs all those below it
    have hdigit : ∀ {x y u v : Nat}, x < y → u < base ^ bs.length →
        x * base ^ bs.length + u < y * base ^ bs.length + v := by
      intro x y u v hxy hu
      have hnext : (x + 1) * base ^ bs.length ≤ y * base ^ bs.length := Nat.mul_le_mul_right _ hxy
      rw [succ_mul] at hnext
      omega
    rcases Nat.lt_trichotomy a b with hab | rfl | hab
    · rw [if_pos hab, if_pos (hdigit hab hva)]
    · rw [if_neg (Nat.lt_irrefl a), if_neg (Nat.lt_irrefl a),
        compareDigits_eq hbase hlengths has' hbs']
      simp only [Nat.add_lt_add_iff_left]
    · have hgt := hdigit (v := Radix.value base as) hab hvb
      rw [if_neg (Nat.lt_asymm hab), if_pos hab, if_neg (Nat.lt_asymm hgt), if_pos hgt]

theorem digitBits_eq {d : Nat} (hd : d ≠ 0) : ∀ {nbits : Nat}, d < 2 ^ (nbits + 1) →
    digitBits d nbits = d.log2 + 1
  | 0, hlt => by
    obtain rfl : d = 1 := by omega
    rfl
  | nbits + 1, hlt => by
    rw [digitBits, one_shiftLeft, and_two_pow]
    cases hbit : d.testBit (nbits + 1) with
    | true =>
      have hge : 2 ^ (nbits + 1) ≤ d := ge_two_pow_of_testBit hbit
      rw [if_pos (by rw [Bool.toNat_true, Nat.one_mul]; exact (Nat.two_pow_pos _).ne'),
        (log2_eq_iff hd).mpr ⟨hge, hlt⟩]
    | false =>
      have hless : d < 2 ^ (nbits + 1) := by
        by_contra hge
        rw [testBit_eq_decide_div_mod_eq, decide_eq_false_iff_not,
          Nat.div_eq_of_lt_le (k := 1) (by omega) (by rw [Nat.pow_succ] at hlt; omega)] at hbit
        exact hbit rfl
      rw [if_neg (by rw [Bool.toNat_false, Nat.zero_mul]; exact fun h => h rfl),
        digitBits_eq hd hless]

theorem log2_mul_add {d m r : Nat} (hd : d ≠ 0) (hr : r < 2 ^ m) :
    (d * 2 ^ m + r).log2 = m + d.log2 := by
  have hpos : d * 2 ^ m ≠ 0 := Nat.mul_ne_zero hd (Nat.two_pow_pos m).ne'
  rw [log2_eq_iff (by omega)]
  constructor
  · calc 2 ^ (m + d.log2) = 2 ^ d.log2 * 2 ^ m := by rw [Nat.add_comm, Nat.pow_add]
      _ ≤ d * 2 ^ m := Nat.mul_le_mul_right _ (log2_self_le hd)
      _ ≤ d * 2 ^ m + r := Nat.le_add_right _ _
  · calc d * 2 ^ m + r < d * 2 ^ m + 2 ^ m := Nat.add_lt_add_left hr _
      _ = (d + 1) * 2 ^ m := (succ_mul d _).symm
      _ ≤ 2 ^ (d.log2 + 1) * 2 ^ m := Nat.mul_le_mul_right _ lt_log2_self
      _ = 2 ^ (m + d.log2 + 1) := by rw [← Nat.pow_add]; congr 1; omega

theorem highestBit_eq {w : Nat} (hw : 0 < w) : ∀ {ds : List Nat}, (∀ d ∈ ds, d < 2 ^ w) →
    highestBit w ds =
      if Radix.value (2 ^ w) ds = 0 then 0 else (Radix.value (2 ^ w) ds).log2 + 1
  | [], _ => rfl
  | d :: ds, h => by
    obtain ⟨hd, hds⟩ := forall_mem_cons.mp h
    have hlt := Radix.value_lt (Nat.one_lt_two_pow hw.ne') hds
    rw [← Nat.pow_mul] at hlt
    rw [highestBit, Radix.value_cons, ← Nat.pow_mul]
    by_cases hzero : d = 0
    · rw [if_neg (fun hne => hne hzero), hzero, Nat.zero_mul, Nat.zero_add, highestBit_eq hw hds]
    · have hpos : d * 2 ^ (w * ds.length) ≠ 0 := Nat.mul_ne_zero hzero (Nat.two_pow_pos _).ne'
      rw [if_pos hzero, if_neg (by omega), log2_mul_add hzero hlt,
        digitBits_eq hzero (by rwa [Nat.sub_add_cancel hw])]
      rfl

end VBitcoin.LongArithmetic
