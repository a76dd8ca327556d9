import Mathlib

/-!
**A `std::map` as its entries in key order** — two maps with the same lookups are equal
(`ext_find`), in whatever order their keys came in.  `emplace` and `insertAll` keep an existing
entry: on lookups they are the left-biased union (`find_insertAll`).
-/

namespace VBitcoin

open List

/-- Lists of bytes are then ordered as by `memcmp`. -/
instance linearOrderUInt8 : LinearOrder UInt8 where
  le := (· ≤ ·)
  lt := (· < ·)
  le_refl _ := UInt8.le_refl _
  le_trans _ _ _ := UInt8.le_trans
  le_antisymm _ _ := UInt8.le_antisymm
  le_total _ _ := UInt8.le_total _ _
  lt_iff_le_not_ge a b := by
    rw [UInt8.lt_iff_toNat_lt, UInt8.le_iff_toNat_le, UInt8.le_iff_toNat_le]
    omega
  toDecidableLE _ _ := inferInstance

structure SortedMap (K V : Type) [LinearOrder K] where
  entries : List (K × V)
  sorted : entries.Pairwise fun a b => a.1 < b.1
  deriving DecidableEq

namespace SortedMap

variable {K V : Type} [LinearOrder K]

def empty : SortedMap K V := ⟨[], List.Pairwise.nil⟩

instance : Inhabited (SortedMap K V) := ⟨empty⟩

/-! ### Lookup -/

def findIn (key : K) : List (K × V) → Option V
  | [] => none
  | entry :: rest => if entry.1 = key then some entry.2 else findIn key rest

variable (map : SortedMap K V)

def find (key : K) : Option V := findIn key map.entries

@[simp] theorem find_empty (key : K) : (empty : SortedMap K V).find key = none := rfl

theorem findIn_of_lt {key : K} : ∀ {l : List (K × V)}, (∀ e ∈ l, key < e.1) → findIn key l = none
  | [], _ => rfl
  | entry :: rest, h => by
    rw [findIn, if_neg (h entry mem_cons_self).ne']
    exact findIn_of_lt (forall_mem_cons.mp h).2

theorem lt_of_mem_cons {key : K} {entry : K × V} {rest : List (K × V)} (hlt : key < entry.1)
    (hsorted : ∀ e ∈ rest, entry.1 < e.1) : ∀ e ∈ entry :: rest, key < e.1 := by
  intro e he
  rcases mem_cons.mp he with rfl | hmem
  · exact hlt
  · exact hlt.trans (hsorted e hmem)

theorem eq_of_findIn_eq : ∀ {l m : List (K × V)}, (l.Pairwise fun a b => a.1 < b.1) →
    (m.Pairwise fun a b => a.1 < b.1) → (∀ key, findIn key l = findIn key m) → l = m
  | [], [], _, _, _ => rfl
  | [], b :: m, _, _, h => by simpa [findIn] using h b.1
  | a :: l, [], _, _, h => by simpa [findIn] using h a.1
  | a :: l, b :: m, hl, hm, h => by
    rw [pairwise_cons] at hl hm
    -- the smaller head would be found on one side only
    have hkey : a.1 = b.1 := by
      rcases lt_trichotomy a.1 b.1 with hlt | heq | hlt
      · have hmiss : findIn a.1 (b :: m) = none := findIn_of_lt (lt_of_mem_cons hlt hm.1)
        have hfound := h a.1
        rw [hmiss] at hfound
        simp [findIn] at hfound
      · exact heq
      · have hmiss : findIn b.1 (a :: l) = none := findIn_of_lt (lt_of_mem_cons hlt hl.1)
        have hfound := h b.1
        rw [hmiss] at hfound
        simp [findIn] at hfound
    have hvalue : a.2 = b.2 := by
      have hfound := h a.1
      rw [findIn, findIn, if_pos rfl, if_pos hkey.symm] at hfound
      exact Option.some.inj hfound
    have hrest : ∀ key, findIn key l = findIn key m := by
      intro key
      by_cases hhead : a.1 = key
      · subst hhead
        rw [findIn_of_lt hl.1, findIn_of_lt fun e he => hkey ▸ hm.1 e he]
      · have hfound := h key
        rwa [findIn, findIn, if_neg hhead, if_neg (hkey ▸ hhead)] at hfound
    rw [eq_of_findIn_eq hl.2 hm.2 hrest, Prod.ext hkey hvalue]

@[ext] theorem ext_find {a b : SortedMap K V} (h : ∀ key, a.find key = b.find key) : a = b := by
  cases a
  cases b
  rw [mk.injEq]
  exact eq_of_findIn_eq ‹_› ‹_› h

/-! ### Adding entries -/

def emplaceIn (key : K) (value : V) : List (K × V) → List (K × V)
  | [] => [(key, value)]
  | entry :: rest =>
    if key < entry.1 then (key, value) :: entry :: rest
    else if entry.1 = key then entry :: rest
    else entry :: emplaceIn key value rest

theorem mem_emplaceIn {key : K} {value : V} {e : K × V} : ∀ {l : List (K × V)},
    e ∈ emplaceIn key value l → e = (key, value) ∨ e ∈ l
  | [], h => Or.inl (mem_singleton.mp h)
  | entry :: rest, h => by
    rw [emplaceIn] at h
    split_ifs at h
    · exact mem_cons.mp h
    · exact Or.inr h
    · rcases mem_cons.mp h with rfl | hmem
      · exact Or.inr mem_cons_self
      · exact (mem_emplaceIn hmem).imp_right (mem_cons_of_mem entry)

theorem sorted_emplaceIn {key : K} {value : V} : ∀ {l : List (K × V)},
    (l.Pairwise fun a b => a.1 < b.1) → (emplaceIn key value l).Pairwise fun a b => a.1 < b.1
  | [], _ => pairwise_singleton _ _
  | entry :: rest, h => by
    rw [emplaceIn]
    have hcons := pairwise_cons.mp h
    split_ifs with hlt heq
    · exact pairwise_cons.mpr ⟨lt_of_mem_cons hlt hcons.1, h⟩
    · exact h
    · refine pairwise_cons.mpr ⟨fun e he => ?_, sorted_emplaceIn hcons.2⟩
      rcases mem_emplaceIn he with rfl | hmem
      · exact lt_of_le_of_ne (not_lt.mp hlt) heq
      · exact hcons.1 e hmem

def emplace (key : K) (value : V) : SortedMap K V :=
  ⟨emplaceIn key value map.entries, sorted_emplaceIn map.sorted⟩

theorem findIn_emplaceIn (key : K) (value : V) (k : K) : ∀ {l : List (K × V)},
    (l.Pairwise fun a b => a.1 < b.1) →
      findIn k (emplaceIn key value l) = (findIn k l).or (if key = k then some value else none)
  | [], _ => by simp [emplaceIn, findIn]
  | entry :: rest, h => by
    have hcons := pairwise_cons.mp h
    rw [emplaceIn]
    by_cases hlt : key < entry.1
    · -- a key below the head is not in the list
      have hmiss : findIn key (entry :: rest) = none := findIn_of_lt (lt_of_mem_cons hlt hcons.1)
      rw [if_pos hlt, findIn]
      split_ifs with hk
      · rw [← hk, hmiss, Option.none_or]
      · rw [Option.or_none]
    · rw [if_neg hlt]
      by_cases heq : entry.1 = key
      · rw [if_pos heq, findIn, heq]
        split_ifs <;> simp
      · rw [if_neg heq, findIn, findIn, findIn_emplaceIn key value k hcons.2]
        split_ifs <;> simp

theorem find_emplace (key : K) (value : V) (k : K) :
    (map.emplace key value).find k = (map.find k).or (if key = k then some value else none) :=
  findIn_emplaceIn key value k map.sorted

def insertAll (map other : SortedMap K V) : SortedMap K V :=
  other.entries.foldl (fun m e => m.emplace e.1 e.2) map

@[simp] theorem find_insertAll (map other : SortedMap K V) (key : K) :
    (map.insertAll other).find key = (map.find key).or (other.find key) := by
  have hfold : ∀ (l : List (K × V)) (m : SortedMap K V),
      (l.foldl (fun m e => m.emplace e.1 e.2) m).find key = (m.find key).or (findIn key l) := by
    intro l
    induction l with
    | nil => simp [findIn]
    | cons entry rest ih =>
      intro m
      rw [foldl_cons, ih, find_emplace, findIn, Option.or_assoc]
      split_ifs <;> simp
  exact hfold other.entries map

end SortedMap

end VBitcoin
