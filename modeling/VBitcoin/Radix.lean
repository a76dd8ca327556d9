import Mathlib

/-!
**The number that digits stand for**, the highest digit first.
-/

namespace VBitcoin.Radix

variable {base : Nat}

def value (base : Nat) (ds : List Nat) : Nat := Nat.ofDigits base ds.reverse

theorem value_append (as bs : List Nat) :
    value base (as ++ bs) = value base as * base ^ bs.length + value base bs := by
  rw [value, List.reverse_append, Nat.ofDigits_append, List.length_reverse, value, value,
    Nat.add_comm, Nat.mul_comm]

theorem value_cons (d : Nat) (ds : List Nat) :
    value base (d :: ds) = d * base ^ ds.length + value base ds := by
  rw [← List.singleton_append, value_append, value, List.reverse_singleton,
    Nat.ofDigits_singleton]

theorem value_lt (hbase : 1 < base) {ds : List Nat} (h : ∀ d ∈ ds, d < base) :
    value base ds < base ^ ds.length := by
  rw [← List.length_reverse]
  exact Nat.ofDigits_lt_base_pow_length hbase fun d hd => h d (List.mem_reverse.mp hd)

end VBitcoin.Radix
