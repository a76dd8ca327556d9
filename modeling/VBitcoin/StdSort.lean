import Mathlib

/-!
**Sorting by a comparison** — what is known of `std::sort`: it permutes its elements, and none
comes after one that it is less than.  Elements that are equal come in any order.
-/

namespace VBitcoin

open List

variable {α : Type}

/-- What `std::sort` asks of a comparator. -/
def StrictWeak (comparator : α → α → Bool) : Prop :=
  (∀ a b, comparator a b = true → comparator b a = false) ∧
    ∀ a b c, comparator a c = true → comparator a b = true ∨ comparator b c = true

structure StdSort (α : Type) where
  sort : (α → α → Bool) → List α → List α
  perm : ∀ comparator elements, (sort comparator elements).Perm elements
  sorted : ∀ comparator, StrictWeak comparator → ∀ elements,
    (sort comparator elements).Pairwise fun a b => comparator b a = false

def StdSort.insertion : StdSort α where
  sort comparator elements := elements.insertionSort fun a b => comparator b a = false
  perm comparator := perm_insertionSort fun a b => comparator b a = false
  sorted comparator h elements := by
    have : Std.Total fun a b => comparator b a = false := ⟨fun a b => by grind [h.1 a b]⟩
    have : IsTrans _ fun a b => comparator b a = false := ⟨fun a b c => by grind [h.2 c b a]⟩
    exact pairwise_insertionSort _ elements

end VBitcoin
