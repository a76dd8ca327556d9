import VBitcoin.WriteLog

/-!
**The total of a store** — what the values of a store weigh together.  A store is a function on
keys, of which there may be infinitely many; that its total is at most `b` is said of every
finite set of keys, so that no support has to be kept.
-/

namespace VBitcoin.WriteLog

open List

variable {K V M : Type} [AddCommGroup M] [PartialOrder M] [IsOrderedAddMonoid M]

def weightAt (weight : V → M) (s : K → Option V) (k : K) : M := (s k).elim 0 weight

/-- **The total of a store is at most `bound`.** -/
def TotalLe (weight : V → M) (s : K → Option V) (bound : M) : Prop :=
  ∀ S : Finset K, ∑ k ∈ S, weightAt weight s k ≤ bound

variable {weight : V → M} {s : K → Option V} {bound : M}

omit [IsOrderedAddMonoid M] in
theorem totalLe_empty : TotalLe weight (fun _ : K => none) 0 := by
  intro S
  apply le_of_eq
  exact Finset.sum_const_zero

omit [IsOrderedAddMonoid M] in
theorem TotalLe.mono {bound' : M} (h : TotalLe weight s bound) (hle : bound ≤ bound') :
    TotalLe weight s bound' := fun S => (h S).trans hle

variable [DecidableEq K]

omit [PartialOrder M] [IsOrderedAddMonoid M] in
theorem sum_weightAt_update (k : K) (v : Option V) (S : Finset K) :
    ∑ x ∈ S.erase k, weightAt weight (Function.update s k v) x =
      ∑ x ∈ S.erase k, weightAt weight s x := by
  apply Finset.sum_congr rfl
  intro x hx
  rw [weightAt, Function.update_of_ne (Finset.ne_of_mem_erase hx), weightAt]

variable {k : K} {v : V} {ks : List K} {vs : List V}

theorem TotalLe.remove (h : TotalLe weight s bound) (hk : s k = some v) :
    TotalLe weight (Function.update s k none) (bound - weight v) := by
  intro S
  have hnone : weightAt weight (Function.update s k none) k = 0 := by
    rw [weightAt, Function.update_self]
    rfl
  have hall := h (insert k (S.erase k))
  rw [Finset.sum_insert (Finset.notMem_erase k S)] at hall
  have hvalue : weightAt weight s k = weight v := by
    rw [weightAt, hk]
    rfl
  rw [hvalue] at hall
  have hsum : ∑ x ∈ S, weightAt weight (Function.update s k none) x =
      ∑ x ∈ S.erase k, weightAt weight s x := by
    rw [← sum_weightAt_update k none]
    exact (Finset.sum_erase S hnone).symm
  rw [hsum]
  exact le_sub_iff_add_le'.mpr hall

theorem TotalLe.put (h : TotalLe weight s bound) (hv : 0 ≤ weight v) :
    TotalLe weight (Function.update s k (some v)) (bound + weight v) := by
  intro S
  have hrest := h (S.erase k)
  rw [← sum_weightAt_update k (some v)] at hrest
  have hvalue : weightAt weight (Function.update s k (some v)) k = weight v := by
    rw [weightAt, Function.update_self]
    rfl
  by_cases hk : k ∈ S
  · rw [← Finset.sum_erase_add S _ hk, hvalue]
    exact add_le_add_left hrest _
  · rw [Finset.erase_eq_of_notMem hk] at hrest
    exact hrest.trans (le_add_of_nonneg_right hv)

omit [AddCommGroup M] [PartialOrder M] [IsOrderedAddMonoid M] in
theorem Holds.update (h : Holds s ks vs) (hk : k ∉ ks)
    (v : Option V) : Holds (Function.update s k v) ks vs := by
  induction h with
  | nil => exact .nil
  | @cons k' v' ks vs hk' _ ih =>
    rw [mem_cons, not_or] at hk
    refine .cons ?_ (ih hk.2)
    rw [Function.update_of_ne (Ne.symm hk.1)]
    exact hk'

theorem TotalLe.removes {ks : List K} : ∀ {s : K → Option V} {bound : M} {vs : List V},
    TotalLe weight s bound → ks.Nodup → Holds s ks vs →
      TotalLe weight (replay s (removes ks)) (bound - (vs.map weight).sum) := by
  induction ks with
  | nil =>
    intro s bound vs h _ hheld
    cases hheld
    rw [map_nil, sum_nil, sub_zero]
    exact h
  | cons k ks ih =>
    intro s bound vs h hnodup hheld
    rw [nodup_cons] at hnodup
    cases hheld with
    | @cons _ v _ vs hk hrest =>
      have hafter := ih (h.remove hk) hnodup.2 (Holds.update hrest hnodup.1 none)
      rw [map_cons, sum_cons, ← sub_sub]
      exact hafter

theorem TotalLe.sum_le (h : TotalLe weight s bound) (hnodup : ks.Nodup)
    (hheld : Holds s ks vs) : (vs.map weight).sum ≤ bound := by
  have hafter := h.removes hnodup hheld ∅
  rw [Finset.sum_empty] at hafter
  exact sub_nonneg.mp hafter

theorem TotalLe.puts {kvs : List (K × V)} : ∀ {s : K → Option V} {bound : M},
    TotalLe weight s bound → (∀ kv ∈ kvs, 0 ≤ weight kv.2) →
      TotalLe weight (replay s (puts kvs)) (bound + (kvs.map fun kv => weight kv.2).sum) := by
  induction kvs with
  | nil =>
    intro s bound h _
    rw [map_nil, sum_nil, add_zero]
    exact h
  | cons kv rest ih =>
    intro s bound h hpos
    have hput : TotalLe weight (Function.update s kv.1 (some kv.2)) (bound + weight kv.2) :=
      h.put (hpos kv mem_cons_self)
    have hafter := ih hput fun kv' hkv' => hpos kv' (mem_cons_of_mem _ hkv')
    rw [map_cons, sum_cons, ← add_assoc]
    exact hafter

end VBitcoin.WriteLog
