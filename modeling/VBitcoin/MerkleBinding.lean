import VBitcoin.PartialMerkleTree
import VBitcoin.Regtest

/-!
**What a Merkle root commits to** — odd rows repeat their last node, so for every list there
are longer ones with the same root.  `ComputeMerkleRoot` reports `mutated` when it hashes two
equal neighbours; without a collision that flag tells the longer list from the original
(`eq_of_root_eq`).
-/

namespace VBitcoin.NodeEnv

open RowTree

variable {E : NodeEnv} {hashes hashes' : List UInt256}

/-- None among the hashes computed for two lists, and none of them is a leaf. (No function into 256
    bits is free of collisions over all pairs.) -/
def NoCollision (E : NodeEnv) (hashes hashes' : List UInt256) : Prop :=
  CollisionFree E.merkleParent hashes (treeHeight hashes.length) hashes'
    (treeHeight hashes'.length)

theorem top_row (hne : hashes ≠ []) :
    row E.merkleParent hashes (treeHeight hashes.length) = [(E.computeMerkleRoot hashes).1] := by
  have hone := width_eq_one (List.length_pos_iff.mpr hne) (width_treeHeight hashes.length).1
  obtain ⟨top, htop⟩ := List.length_eq_one_iff.mp
    ((length_row E.merkleParent hashes (treeHeight hashes.length)).trans hone)
  have hzero : (row E.merkleParent hashes (treeHeight hashes.length))[0]? =
      some (E.calcHash hashes.length hashes (treeHeight hashes.length) 0) :=
    row_calcHash (by omega)
  rw [htop] at hzero
  rw [htop, computeMerkleRoot_eq hne, ← Option.some.inj hzero]

theorem eq_of_root_eq (hfree : E.NoCollision hashes hashes') (hne : hashes ≠ [])
    (hle : hashes.length ≤ hashes'.length)
    (hroot : (E.computeMerkleRoot hashes).1 = (E.computeMerkleRoot hashes').1)
    (hmutated : (E.computeMerkleRoot hashes').2 = false) : hashes = hashes' := by
  have hne' : hashes' ≠ [] := by
    rintro rfl
    exact hne (List.eq_nil_of_length_eq_zero (by simpa using hle))
  apply hfree.leaves_eq hne hne' _ hle
  · exact fun k hk => noTwins_row hmutated hk
  · rw [top_row hne, top_row hne', hroot]

/-- Lists that are not reported as mutated are equal if their roots are; and a repeated tail that
    keeps the root is reported as mutated. -/
theorem merkle_root_identifies (E : NodeEnv) :
    (∀ hashes hashes' : List UInt256, (hashes = [] ↔ hashes' = []) →
      E.NoCollision hashes hashes' → (E.computeMerkleRoot hashes).2 = false →
      (E.computeMerkleRoot hashes').2 = false →
      (E.computeMerkleRoot hashes).1 = (E.computeMerkleRoot hashes').1 → hashes = hashes') ∧
    ∀ hashes tail : List UInt256, tail ≠ [] → tail <:+ hashes →
      E.NoCollision hashes (hashes ++ tail) →
      (E.computeMerkleRoot (hashes ++ tail)).1 = (E.computeMerkleRoot hashes).1 →
      (E.computeMerkleRoot (hashes ++ tail)).2 = true := by
  constructor
  · intro hashes hashes' hempty hfree hmutated hmutated' hroot
    by_cases hne : hashes = []
    · rw [hne, hempty.mp hne]
    · rcases Nat.le_total hashes.length hashes'.length with hle | hle
      · exact eq_of_root_eq hfree hne hle hroot hmutated'
      · exact (eq_of_root_eq hfree.symm (mt hempty.mpr hne) hle hroot.symm hmutated).symm
  · intro hashes tail htail hsuffix hfree hroot
    have hne : hashes ≠ [] := by
      rintro rfl
      exact htail (List.suffix_nil.mp hsuffix)
    apply (Bool.not_eq_false _).mp
    intro hmutated
    have heq := eq_of_root_eq hfree hne (by simp) hroot.symm hmutated
    exact htail (List.self_eq_append_right.mp heq)

end VBitcoin.NodeEnv

namespace VBitcoin.Regtest

def pairNode : UInt256 :=
  119948175450890623336371141142974961959961407595550674527213867178105052490
def oddNode : UInt256 :=
  435040466443524599532964810158859254167534527937151118009149455549622958669
def topNode : UInt256 :=
  18415598798516404152453928630757998746886038094519475616163380095323549306

theorem pairNode_eq : env.merkleParent 1 2 = pairNode := by decide +kernel
theorem oddNode_eq : env.merkleParent 3 3 = oddNode := by decide +kernel
theorem topNode_eq : env.merkleParent pairNode oddNode = topNode := by decide +kernel

theorem combined_repeated :
    RowTree.combined env.merkleParent [1, 2, 3] 2 = [(1, 2), (3, 3), (pairNode, oddNode)] ∧
      RowTree.combined env.merkleParent [1, 2, 3, 3] 2 =
        [(1, 2), (3, 3), (pairNode, oddNode)] := by
  rw [← pairNode_eq, ← oddNode_eq]
  exact ⟨rfl, rfl⟩

theorem repeated_leaf_noCollision : env.NoCollision [1, 2, 3] [1, 2, 3, 3] := by
  have hheights : NodeEnv.NoCollision env [1, 2, 3] [1, 2, 3, 3] =
      RowTree.CollisionFree env.merkleParent [1, 2, 3] 2 [1, 2, 3, 3] 2 := rfl
  rw [hheights]
  constructor
  · rw [combined_repeated.1, combined_repeated.2]
    intro p hp q hq
    simp only [List.cons_append, List.nil_append, List.mem_cons, List.not_mem_nil, or_false] at hp hq
    rcases hp with rfl | rfl | rfl | rfl | rfl | rfl <;>
      rcases hq with rfl | rfl | rfl | rfl | rfl | rfl <;>
      simp only [pairNode_eq, oddNode_eq, topNode_eq] <;> decide
  · rw [combined_repeated.1, combined_repeated.2]
    intro p hp
    simp only [List.cons_append, List.nil_append, List.mem_cons, List.not_mem_nil, or_false] at hp
    have hleaf : ∀ node ∈ [pairNode, oddNode, topNode],
        ∀ x ∈ ([1, 2, 3] ++ [1, 2, 3, 3] : List UInt256), node ≠ x := by
      simp [pairNode, oddNode, topNode]
    apply hleaf
    rcases hp with rfl | rfl | rfl | rfl | rfl | rfl <;>
      simp only [pairNode_eq, oddNode_eq, topNode_eq] <;> decide

theorem single_leaf_noCollision : env.NoCollision [1] [1] := by
  constructor
  · exact fun _ hp => absurd hp List.not_mem_nil
  · exact fun _ hp => absurd hp List.not_mem_nil

theorem repeated_leaf_mutated :
    ([1] : List UInt256) = [1] ∧ (env.computeMerkleRoot ([1, 2, 3] ++ [3])).2 = true := by
  refine ⟨?_, ?_⟩
  · exact (env.merkle_root_identifies).1 [1] [1] (by simp) single_leaf_noCollision rfl rfl rfl
  · exact (env.merkle_root_identifies).2 [1, 2, 3] [3] (by simp) (by decide)
      repeated_leaf_noCollision (by decide +kernel)

/-- The list of the null hash alone has the root of the empty list. -/
theorem empty_list_confused :
    env.NoCollision [] [0] ∧ (env.computeMerkleRoot []).2 = false ∧
      (env.computeMerkleRoot [0]).2 = false ∧
      (env.computeMerkleRoot []).1 = (env.computeMerkleRoot [0]).1 ∧ ([] : List UInt256) ≠ [0] := by
  refine ⟨?_, rfl, rfl, rfl, by simp⟩
  constructor
  · exact fun _ hp => absurd hp List.not_mem_nil
  · exact fun _ hp => absurd hp List.not_mem_nil

end VBitcoin.Regtest
