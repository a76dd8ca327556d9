import Mathlib

/-!
**Trees over a row of leaves** — the leaves are combined in pairs, row by row, and an odd
last node is paired with itself.  A node is given by its height and its position in the
row; `row_succ` is the equation of its label, `leavesBelow` lists the leaves under it.

Nothing is assumed about the labels or about how they are combined.
-/

namespace VBitcoin.RowTree

open List

/-! ### Widths -/

def width (n height : Nat) : Nat := (n + 2 ^ height - 1) / 2 ^ height

theorem width_zero (n : Nat) : width n 0 = n := by
  simp [width]

theorem width_succ (n height : Nat) : width n (height + 1) = (width n height + 1) / 2 := by
  unfold width
  have hpos : 0 < 2 ^ height := Nat.two_pow_pos height
  have hsum : n + 2 ^ (height + 1) - 1 = n + 2 ^ height - 1 + 2 ^ height := by
    rw [Nat.pow_succ]
    omega
  rw [hsum, Nat.pow_succ, ← Nat.div_div_eq_div_mul, Nat.add_div_right _ hpos]

variable {n height pos : Nat}

theorem lt_width : pos < width n height ↔ pos * 2 ^ height < n := by
  have hpos : 0 < 2 ^ height := Nat.two_pow_pos height
  unfold width
  rw [Nat.lt_iff_add_one_le, Nat.le_div_iff_mul_le hpos, Nat.add_one_mul]
  omega

theorem width_eq_one (hn : 0 < n) (h : width n height ≤ 1) : width n height = 1 := by
  have : 0 < width n height := lt_width.mpr (by omega)
  omega

theorem width_le_one : width n height ≤ 1 ↔ n ≤ 2 ^ height := by
  rw [← not_lt, lt_width]
  omega

theorem left_lt (h : pos < width n (height + 1)) : pos * 2 < width n height := by
  rw [width_succ] at h
  omega

/-! ### The leaves below a node -/

def leavesBelow (n height pos : Nat) : List Nat :=
  (List.range' (pos * 2 ^ height) (2 ^ height)).filter (· < n)

theorem leavesBelow_zero (h : pos < n) : leavesBelow n 0 pos = [pos] := by
  simp [leavesBelow, h]

theorem leavesBelow_succ (n height pos : Nat) : leavesBelow n (height + 1) pos =
    leavesBelow n height (pos * 2) ++ leavesBelow n height (pos * 2 + 1) := by
  have hleft : pos * 2 ^ (height + 1) = pos * 2 * 2 ^ height := by ring
  have hright : (pos * 2 + 1) * 2 ^ height = pos * 2 * 2 ^ height + 2 ^ height := by ring
  have hsize : 2 ^ (height + 1) = 2 ^ height + 2 ^ height := by ring
  unfold leavesBelow
  rw [hleft, hright, hsize, ← filter_append, range'_append_1]

theorem leavesBelow_eq_nil (h : width n height ≤ pos) : leavesBelow n height pos = [] := by
  have hbeyond : n ≤ pos * 2 ^ height := by
    rw [← not_lt, ← lt_width]
    omega
  unfold leavesBelow
  rw [filter_eq_nil_iff]
  intro p hp
  have := (mem_range'_1.mp hp).1
  simpa using hbeyond.trans this

theorem length_leavesBelow_pos (h : pos < width n height) :
    0 < (leavesBelow n height pos).length := by
  apply length_pos_of_mem (a := pos * 2 ^ height)
  refine mem_filter.mpr ⟨mem_range'_1.mpr ⟨le_refl _, ?_⟩, by simpa using lt_width.mp h⟩
  have : 0 < 2 ^ height := Nat.two_pow_pos height
  omega

theorem leavesBelow_root (h : width n height ≤ 1) : leavesBelow n height 0 = List.range n := by
  unfold leavesBelow
  rw [Nat.zero_mul, ← range_eq_range']
  have hle := width_le_one.mp h
  obtain ⟨k, hk⟩ := Nat.exists_eq_add_of_le hle
  rw [hk, range_add, filter_append]
  have hfirst : (List.range n).filter (fun p => decide (p < n)) = List.range n := by
    rw [filter_eq_self]
    intro p hp
    simpa using hp
  have hrest : ((List.range k).map (n + ·)).filter (fun p => decide (p < n)) = [] := by
    rw [filter_eq_nil_iff]
    intro p hp
    obtain ⟨i, -, rfl⟩ := mem_map.mp hp
    simp
  rw [hfirst, hrest, append_nil]

/-! ### Rows of labels -/

variable {α : Type} (combine : α → α → α)

def pairUp : List α → List α
  | left :: right :: rest => combine left right :: pairUp rest
  | [last] => [combine last last]
  | [] => []

variable (labels : List α)

theorem length_pairUp : (pairUp combine labels).length = (labels.length + 1) / 2 := by
  induction labels using pairUp.induct with
  | case1 left right rest ih =>
    rw [pairUp, length_cons, ih, length_cons, length_cons]
    omega
  | case2 last => simp [pairUp]
  | case3 => simp [pairUp]

def row (leaves : List α) (height : Nat) : List α := (pairUp combine)^[height] leaves

theorem row_succ (leaves : List α) (height : Nat) :
    row combine leaves (height + 1) = pairUp combine (row combine leaves height) :=
  Function.iterate_succ_apply' (pairUp combine) height leaves

theorem length_row (leaves : List α) (height : Nat) :
    (row combine leaves height).length = width leaves.length height := by
  induction height with
  | zero => exact (width_zero _).symm
  | succ height ih => rw [row_succ, length_pairUp, ih, width_succ]

/-! ### A row determines the row below

The pairs of a row are found again from the row above when no two of them have the same label.
What they leave open is whether an odd last node was there once or twice; a row without twins is
the shorter of the two. -/

/-- The pairs that are combined, an odd last node with itself. -/
def pairs : List α → List (α × α)
  | left :: right :: rest => (left, right) :: pairs rest
  | [last] => [(last, last)]
  | [] => []

theorem pairUp_eq_map : pairUp combine labels = (pairs labels).map fun p => combine p.1 p.2 := by
  induction labels using pairs.induct with
  | case1 left right rest ih => rw [pairUp, pairs, map_cons, ih]
  | case2 last => rfl
  | case3 => rfl

theorem getElem?_pairs (pos : Nat) : (pairs labels)[pos]? =
    labels[pos * 2]?.map fun left => (left, labels[pos * 2 + 1]?.getD left) := by
  induction labels using pairs.induct generalizing pos with
  | case1 left right rest ih =>
    cases pos with
    | zero => rfl
    | succ pos =>
      rw [pairs, getElem?_cons_succ, ih, Nat.add_one_mul]
      rfl
  | case2 last =>
    cases pos with
    | zero => rfl
    | succ pos => simp [pairs]
  | case3 => simp [pairs]

theorem getElem?_pairUp (pos : Nat) : (pairUp combine labels)[pos]? =
    labels[pos * 2]?.map fun left => combine left (labels[pos * 2 + 1]?.getD left) := by
  rw [pairUp_eq_map, getElem?_map, getElem?_pairs, Option.map_map]
  rfl

theorem fst_pairs_sublist : ((pairs labels).map Prod.fst).Sublist labels := by
  induction labels using pairs.induct with
  | case1 left right rest ih => exact (ih.cons right).cons_cons left
  | case2 last => exact List.Sublist.refl _
  | case3 => exact List.Sublist.refl _

theorem head?_pairs : (pairs labels).head?.map Prod.fst = labels.head? := by
  cases labels using pairs.induct <;> rfl

def NoTwins : Prop :=
  ∀ pos, pos * 2 + 1 < labels.length → labels[pos * 2]? ≠ labels[pos * 2 + 1]?

theorem NoTwins.tail {left right : α} {rest : List α} (h : NoTwins (left :: right :: rest)) :
    left ≠ right ∧ NoTwins rest := by
  constructor
  · rintro rfl
    exact h 0 (by simp) rfl
  · intro pos hpos
    have := h (pos + 1) (by simp only [length_cons]; omega)
    rwa [Nat.add_one_mul, getElem?_cons_succ, getElem?_cons_succ] at this

theorem NoTwins.of_nodup {labels : List α} (h : labels.Nodup) : NoTwins labels :=
  fun pos hpos => nodup_iff_getElem?_ne_getElem?.mp h (pos * 2) (pos * 2 + 1) (by omega) hpos

theorem eq_of_pairs_eq : ∀ {labels labels' : List α}, pairs labels = pairs labels' →
    labels.length ≤ labels'.length → NoTwins labels' → labels = labels'
  | [], [], _, _, _ => rfl
  | [], [_], h, _, _ => by cases h
  | [], _ :: _ :: _, h, _, _ => by cases h
  | [_], [], h, _, _ => by cases h
  | [_], [_], h, _, _ => by
    cases h
    rfl
  | [_], [left, right], h, _, hlone => by
    -- the longer row ends in twins
    cases h
    exact absurd rfl hlone.tail.1
  | [_], _ :: _ :: [_], h, _, _ => by cases h
  | [_], _ :: _ :: _ :: _ :: _, h, _, _ => by cases h
  | _ :: _ :: _, [], h, _, _ => by cases h
  | _ :: _ :: _, [_], _, hle, _ => by simp at hle
  | left :: right :: rest, left' :: right' :: rest', h, hle, hlone => by
    simp only [pairs, List.cons.injEq, Prod.mk.injEq] at h
    obtain ⟨⟨rfl, rfl⟩, hrest⟩ := h
    have hle' : rest.length ≤ rest'.length := by
      simp only [length_cons] at hle
      omega
    rw [eq_of_pairs_eq hrest hle' hlone.tail.2]

theorem width_mono {m : Nat} (h : n ≤ m) (height : Nat) : width n height ≤ width m height :=
  Nat.div_le_div_right (by omega)

def combined (leaves : List α) (height : Nat) : List (α × α) :=
  (List.range height).flatMap fun k => pairs (row combine leaves k)

theorem mem_combined {leaves : List α} {k : Nat} (hk : k < height) {p : α × α}
    (hp : p ∈ pairs (row combine leaves k)) : p ∈ combined combine leaves height :=
  mem_flatMap.mpr ⟨k, mem_range.mpr hk, hp⟩

theorem nodup_row {leaves : List α} (hleaves : leaves.Nodup)
    (hinj : ∀ p ∈ combined combine leaves height, ∀ q ∈ combined combine leaves height,
      combine p.1 p.2 = combine q.1 q.2 → p = q) :
    ∀ {k : Nat}, k ≤ height → (row combine leaves k).Nodup := by
  intro k
  induction k with
  | zero => exact fun _ => hleaves
  | succ k ih =>
    intro hk
    have hpairs : (pairs (row combine leaves k)).Nodup :=
      List.Nodup.of_map Prod.fst ((fst_pairs_sublist _).nodup (ih (by omega)))
    rw [row_succ, pairUp_eq_map]
    refine hpairs.map_on fun p hp q hq => hinj p ?_ q ?_
    · exact mem_combined combine hk hp
    · exact mem_combined combine hk hq

/-- Different labels for different pairs, none a leaf. -/
structure CollisionFree (leaves : List α) (height : Nat) (leaves' : List α) (height' : Nat) :
    Prop where
  node : ∀ p ∈ combined combine leaves height ++ combined combine leaves' height',
    ∀ q ∈ combined combine leaves height ++ combined combine leaves' height',
      combine p.1 p.2 = combine q.1 q.2 → p = q
  leaf : ∀ p ∈ combined combine leaves height ++ combined combine leaves' height',
    ∀ x ∈ leaves ++ leaves', combine p.1 p.2 ≠ x

variable {combine} {leaves leaves' : List α} {height height' k k' : Nat}

theorem CollisionFree.symm (h : CollisionFree combine leaves height leaves' height') :
    CollisionFree combine leaves' height' leaves height := by
  constructor
  · intro p hp q hq
    exact h.node p (by rw [mem_append] at *; tauto) q (by rw [mem_append] at *; tauto)
  · intro p hp x hx
    exact h.leaf p (by rw [mem_append] at *; tauto) x (by rw [mem_append] at *; tauto)

theorem eq_of_map_eq {β : Type} {f : β → α} : ∀ {l l' : List β},
    (∀ x ∈ l, ∀ y ∈ l', f x = f y → x = y) → l.map f = l'.map f → l = l'
  | [], [], _, _ => rfl
  | [], _ :: _, _, h => by cases h
  | _ :: _, [], _, h => by cases h
  | x :: l, y :: l', hinj, h => by
    simp only [map_cons, List.cons.injEq] at h
    obtain rfl := hinj x (by simp) y (by simp) h.1
    rw [eq_of_map_eq (fun u hu v hv => hinj u (by simp [hu]) v (by simp [hv])) h.2]

theorem CollisionFree.pairs_eq (h : CollisionFree combine leaves height leaves' height')
    (hk : k < height) (hk' : k' < height')
    (hrow : row combine leaves (k + 1) = row combine leaves' (k' + 1)) :
    pairs (row combine leaves k) = pairs (row combine leaves' k') := by
  rw [row_succ, row_succ, pairUp_eq_map, pairUp_eq_map] at hrow
  refine eq_of_map_eq (fun p hp q hq => ?_) hrow
  apply h.node p _ q _
  · exact mem_append_left _ (mem_combined combine hk hp)
  · exact mem_append_right _ (mem_combined combine hk' hq)

/-! ### The top determines the leaves -/

theorem row_ne_nil (combine : α → α → α) (hne : leaves ≠ []) (k : Nat) : row combine leaves k ≠ [] := by
  apply ne_nil_of_length_pos
  rw [length_row]
  apply lt_width.mpr
  rw [Nat.zero_mul]
  exact length_pos_iff.mpr hne

theorem exists_head_pair (combine : α → α → α) (hne : leaves ≠ []) (k : Nat) :
    ∃ p ∈ pairs (row combine leaves k), (row combine leaves k).head? = some p.1 ∧
      (row combine leaves (k + 1)).head? = some (combine p.1 p.2) := by
  have hrow := row_ne_nil combine hne k
  have hfst := head?_pairs (row combine leaves k)
  rw [row_succ, pairUp_eq_map, head?_map, ← hfst]
  cases hpairs : (pairs (row combine leaves k)).head? with
  | none =>
    rw [hpairs] at hfst
    exact absurd (head?_eq_none_iff.mp hfst.symm) hrow
  | some p => exact ⟨p, mem_of_head? hpairs, rfl, rfl⟩

section SameTop

variable (h : CollisionFree combine leaves height leaves' height') (hne : leaves ≠ [])
  (hne' : leaves' ≠ [])

include h hne hne'

theorem CollisionFree.head_eq (hk : k < height) (hk' : k' < height')
    (hhead : (row combine leaves (k + 1)).head? = (row combine leaves' (k' + 1)).head?) :
    (row combine leaves k).head? = (row combine leaves' k').head? := by
  obtain ⟨p, hp, hfst, htop⟩ := exists_head_pair combine hne k
  obtain ⟨q, hq, hfst', htop'⟩ := exists_head_pair combine hne' k'
  have hpq : p = q := by
    apply h.node p _ q _
    · rw [htop, htop'] at hhead
      exact Option.some.inj hhead
    · exact mem_append_left _ (mem_combined combine hk hp)
    · exact mem_append_right _ (mem_combined combine hk' hq)
  rw [hfst, hfst', hpq]

theorem CollisionFree.height_le
    (htop : (row combine leaves height).head? = (row combine leaves' height').head?) :
    height' ≤ height := by
  by_contra hlt
  have hpath : ∀ j ≤ height, (row combine leaves (height - j)).head? =
      (row combine leaves' (height' - j)).head? := by
    intro j
    induction j with
    | zero => exact fun _ => htop
    | succ j ih =>
      intro hj
      apply h.head_eq hne hne' (by omega) (by omega)
      rw [show height - (j + 1) + 1 = height - j by omega,
        show height' - (j + 1) + 1 = height' - j by omega]
      exact ih (by omega)
  have hleaf := hpath height (le_refl _)
  obtain ⟨q, hq, -, hnode⟩ := exists_head_pair combine hne' (height' - height - 1)
  rw [Nat.sub_self, show height' - height = height' - height - 1 + 1 by omega, hnode] at hleaf
  apply h.leaf q _ (combine q.1 q.2) _ rfl
  · exact mem_append_right _ (mem_combined combine (by omega) hq)
  · exact mem_append_left _ (mem_of_head? hleaf)

/-- With one top, if the one with more leaves has no twins. -/
theorem CollisionFree.leaves_eq
    (htop : row combine leaves height = row combine leaves' height')
    (hle : leaves.length ≤ leaves'.length)
    (hlone : ∀ k < height', NoTwins (row combine leaves' k)) : leaves = leaves' := by
  obtain rfl : height = height' := by
    apply le_antisymm
    · exact h.symm.height_le hne' hne (congrArg List.head? htop).symm
    · exact h.height_le hne hne' (congrArg List.head? htop)
  have hrows : ∀ j ≤ height, row combine leaves (height - j) = row combine leaves' (height - j) := by
    intro j
    induction j with
    | zero => exact fun _ => htop
    | succ j ih =>
      intro hj
      have habove := ih (by omega)
      rw [show height - j = height - (j + 1) + 1 by omega] at habove
      apply eq_of_pairs_eq (h.pairs_eq (by omega) (by omega) habove)
      · rw [length_row, length_row]
        exact width_mono hle _
      · exact hlone _ (by omega)
  have hleaves := hrows height (le_refl _)
  rwa [Nat.sub_self] at hleaves

end SameTop

end VBitcoin.RowTree
