import Mathlib

/-!
**A map kept in key order** — an association list without repeated keys, into
which a new key is inserted at its place in a given order (`std::map`).

Nothing is assumed about the order: the keys are distinct whatever it is,
because an existing key is replaced in place.
-/

namespace VBitcoin

universe u v

structure OrderedMap (K : Type u) (V : Type v) where
  entries : List (K × V)
  nodup : (entries.map Prod.fst).Nodup

namespace OrderedMap

variable {K : Type u} {V : Type v} [DecidableEq K] (less : K → K → Bool)

def empty : OrderedMap K V := ⟨[], List.nodup_nil⟩

/-- Put `entry` before the first entry with a larger key. -/
def place (entry : K × V) : List (K × V) → List (K × V)
  | [] => [entry]
  | head :: rest => if less entry.1 head.1 then entry :: head :: rest else head :: place entry rest

omit [DecidableEq K] in
theorem place_perm (entry : K × V) : ∀ l, (place less entry l).Perm (entry :: l)
  | [] => List.Perm.refl _
  | head :: rest => by
      unfold place
      split
      · exact List.Perm.refl _
      · exact ((place_perm entry rest).cons head).trans (List.Perm.swap entry head rest)

def insert (map : OrderedMap K V) (key : K) (value : V) : OrderedMap K V :=
  if h : key ∈ map.entries.map Prod.fst then
    { entries := map.entries.map fun e => if e.1 = key then (key, value) else e
      nodup := by
        have hkeys : (map.entries.map fun e => if e.1 = key then (key, value) else e).map Prod.fst =
            map.entries.map Prod.fst := by
          rw [List.map_map]
          apply List.map_congr_left
          intro e _
          simp only [Function.comp_apply]
          split
          · rename_i he
            exact he.symm
          · rfl
        rw [hkeys]
        exact map.nodup }
  else
    { entries := place less (key, value) map.entries
      nodup := by
        have hperm := (place_perm less (key, value) map.entries).map Prod.fst
        rw [hperm.nodup_iff, List.map_cons, List.nodup_cons]
        exact ⟨h, map.nodup⟩ }

variable {map : OrderedMap K V} {key : K} {value : V} {e : K × V}

theorem mem_insert
    (h : e ∈ (map.insert less key value).entries) : e = (key, value) ∨ e ∈ map.entries := by
  unfold insert at h
  split at h
  · simp only [List.mem_map] at h
    obtain ⟨e', he', h⟩ := h
    split at h
    · exact Or.inl h.symm
    · exact Or.inr (h ▸ he')
  · exact List.mem_cons.mp ((place_perm less (key, value) map.entries).mem_iff.mp h)

theorem mem_insert_of_notMem (h : key ∉ map.entries.map Prod.fst) :
    e ∈ (map.insert less key value).entries ↔ e = (key, value) ∨ e ∈ map.entries := by
  rw [insert, dif_neg h]
  exact (place_perm less (key, value) map.entries).mem_iff.trans List.mem_cons

end OrderedMap

end VBitcoin
