import VBitcoin.CompactInit
import VBitcoin.MerkleBinding
import VBitcoin.TxOutProof

/-!
**Partial Merkle trees as proofs** (`merkleblock.cpp`) — what an honest prover sends is
accepted, and what is accepted is true, whatever bits and hashes were sent.  Both rest on the
hash having no collision among the pairs that are hashed.
-/

namespace VBitcoin

open Codec RowTree List

namespace NodeEnv

variable {E : NodeEnv} {vTxid : List UInt256}

/-- No pair of the first list has the hash of another pair of the second. -/
def CollisionFreeAmong (E : NodeEnv) (opened committed : List (UInt256 × UInt256)) : Prop :=
  ∀ p ∈ opened, ∀ q ∈ committed, E.merkleParent p.1 p.2 = E.merkleParent q.1 q.2 → p = q

theorem CollisionFreeAmong.mono {opened opened' committed : List (UInt256 × UInt256)}
    (h : E.CollisionFreeAmong opened committed) (hsub : opened' ⊆ opened) :
    E.CollisionFreeAmong opened' committed :=
  fun p hp => h p (hsub hp)

def committedPairs (E : NodeEnv) (vTxid : List UInt256) : List (UInt256 × UInt256) :=
  combined E.merkleParent vTxid (treeHeight vTxid.length)

section Code

variable (E : NodeEnv) (tree : CPartialMerkleTree)

/-! ### The extraction, with its reads -/

/-- The branch of `TraverseAndExtract` that uses a stored hash. -/
def storedHashAt (height pos : Nat) (fParentOfMatch : Bool) (x : Extraction) :
    Run (UInt256 × Extraction) :=
  if tree.vHash.length ≤ x.nHashUsed then pure (0, { x with fBad := true })
  else do
    let hash ← readAt tree.vHash x.nHashUsed
    let x := { x with nHashUsed := (x.nHashUsed + 1) % 2 ^ 32 }
    if height == 0 && fParentOfMatch then
      pure (hash, { x with vMatch := x.vMatch ++ [hash], vnIndex := x.vnIndex ++ [pos] })
    else pure (hash, x)

/-- `TraverseAndExtract`; a read behind the end of an array is undefined. -/
def traverseAndExtractAt : Nat → Nat → Extraction → Run (UInt256 × Extraction)
  | 0, pos, x =>
    if tree.vBits.length ≤ x.nBitsUsed then pure (0, { x with fBad := true })
    else do
      let fParentOfMatch ← readAt tree.vBits x.nBitsUsed
      storedHashAt tree 0 pos fParentOfMatch { x with nBitsUsed := (x.nBitsUsed + 1) % 2 ^ 32 }
  | height + 1, pos, x =>
    if tree.vBits.length ≤ x.nBitsUsed then pure (0, { x with fBad := true })
    else do
      let fParentOfMatch ← readAt tree.vBits x.nBitsUsed
      let x := { x with nBitsUsed := (x.nBitsUsed + 1) % 2 ^ 32 }
      if !fParentOfMatch then storedHashAt tree (height + 1) pos fParentOfMatch x
      else do
        let (left, x) ← traverseAndExtractAt height (pos * 2) x
        if pos * 2 + 1 < calcTreeWidth tree.nTransactions height then do
          let (right, x) ← traverseAndExtractAt height (pos * 2 + 1) x
          pure (E.merkleParent left right, if right = left then { x with fBad := true } else x)
        else pure (E.merkleParent left left, x)

def extractMatchesAt : Run (UInt256 × List UInt256 × List Nat) :=
  if tree.nTransactions = 0 then pure (0, [], [])
  else if MAX_BLOCK_WEIGHT / MIN_TRANSACTION_WEIGHT < tree.nTransactions then pure (0, [], [])
  else if tree.nTransactions < tree.vHash.length then pure (0, [], [])
  else if tree.vBits.length < tree.vHash.length then pure (0, [], [])
  else do
    let (hashMerkleRoot, x) ←
      E.traverseAndExtractAt tree (treeHeight tree.nTransactions) 0 { fBad := tree.fBad }
    if x.fBad then pure (0, x.vMatch, x.vnIndex)
    else if (x.nBitsUsed + 7) / 8 ≠ (tree.vBits.length + 7) / 8 then pure (0, x.vMatch, x.vnIndex)
    else if x.nHashUsed ≠ tree.vHash.length then pure (0, x.vMatch, x.vnIndex)
    else pure (hashMerkleRoot, x.vMatch, x.vnIndex)

def openedPairs : Nat → Nat → Extraction → List (UInt256 × UInt256)
  | 0, _, _ => []
  | height + 1, pos, x =>
    match tree.vBits[x.nBitsUsed]? with
    | some true =>
      let x := { x with nBitsUsed := x.nBitsUsed + 1 }
      let (left, x') := E.traverseAndExtract tree height (pos * 2) x
      if pos * 2 + 1 < calcTreeWidth tree.nTransactions height then
        (left, (E.traverseAndExtract tree height (pos * 2 + 1) x').1) ::
          (openedPairs height (pos * 2) x ++ openedPairs height (pos * 2 + 1) x')
      else (left, left) :: openedPairs height (pos * 2) x
    | _ => []

def extractedPairs : List (UInt256 × UInt256) :=
  E.openedPairs tree (treeHeight tree.nTransactions) 0 { fBad := tree.fBad }

end Code

/-! ### Completeness -/

theorem noTwins_of_nodup (hnodup : vTxid.Nodup)
    (hfree : E.CollisionFreeAmong (E.committedPairs vTxid) (E.committedPairs vTxid)) {k : Nat}
    (hk : k < treeHeight vTxid.length) : NoTwins (row E.merkleParent vTxid k) :=
  NoTwins.of_nodup (nodup_row _ hnodup hfree hk.le)

/-- **Partial Merkle trees are complete**: built, written and read back, they give the root, the
    chosen ids in block order and their positions. -/
theorem partialMerkleTree_complete (E : NodeEnv) (vTxid : List UInt256) (hne : vTxid ≠ [])
    (hnodup : vTxid.Nodup) (hcount : vTxid.length ≤ MAX_BLOCK_WEIGHT / MIN_TRANSACTION_WEIGHT)
    (hfree : E.CollisionFreeAmong (E.committedPairs vTxid) (E.committedPairs vTxid)) :
    ∀ vMatch : List Bool, vMatch.length = vTxid.length →
      ∃ txn, E.partialMerkleTree vTxid vMatch = .ok txn ∧
        ∃ tree, Reads readPartialMerkleTree txn.serialize tree ∧
          E.extractMatches tree = ((E.computeMerkleRoot vTxid).1,
            ((List.range vTxid.length).filter fun p => vMatch.getD p false).map
              (fun p => vTxid.getD p 0),
            (List.range vTxid.length).filter fun p => vMatch.getD p false) := by
  intro vMatch _
  obtain ⟨txn, htxn, tree, hread, hbuilt⟩ := reads_builtTree E vMatch hne hcount
  refine ⟨txn, htxn, tree, hread, ?_⟩
  exact extractMatches_built hbuilt hne hcount fun _ hk => noTwins_of_nodup hnodup hfree hk

end NodeEnv

theorem Regtest.middle_id_proven :
    ∃ txn, Regtest.env.partialMerkleTree [1, 2, 3] [false, true, false] = .ok txn ∧
      ∃ tree, Reads readPartialMerkleTree txn.serialize tree ∧
        Regtest.env.extractMatches tree =
          ((Regtest.env.computeMerkleRoot [1, 2, 3]).1, [2], [1]) := by
  refine Regtest.env.partialMerkleTree_complete [1, 2, 3] (by decide) (by decide) (by decide) ?_
    [false, true, false] rfl
  intro p hp q hq
  exact Regtest.repeated_leaf_noCollision.node p (mem_append_left _ hp) q
    (mem_append_left _ hq)

/-! ### The steps of the extraction -/

abbrev Extraction.afterBit (x : Extraction) : Extraction :=
  { x with nBitsUsed := x.nBitsUsed + 1 }

namespace NodeEnv

variable {E : NodeEnv} {tree : CPartialMerkleTree} {T : List UInt256}

variable {pos height : Nat} {x : Extraction}

theorem traverseAndExtract_zero {fParentOfMatch : Bool}
    (hbit : tree.vBits[x.nBitsUsed]? = some fParentOfMatch) :
    E.traverseAndExtract tree 0 pos x = storedHash tree 0 pos fParentOfMatch x.afterBit := by
  rw [traverseAndExtract, hbit]

theorem traverseAndExtract_none (hbit : tree.vBits[x.nBitsUsed]? = none) :
    E.traverseAndExtract tree height pos x = (0, { x with fBad := true }) := by
  cases height with
  | zero => rw [traverseAndExtract, hbit]
  | succ height => rw [traverseAndExtract, hbit]

theorem traverseAndExtract_false (hbit : tree.vBits[x.nBitsUsed]? = some false) :
    E.traverseAndExtract tree (height + 1) pos x =
      storedHash tree (height + 1) pos false x.afterBit := by
  rw [traverseAndExtract, hbit]

theorem traverseAndExtract_true (hbit : tree.vBits[x.nBitsUsed]? = some true) :
    E.traverseAndExtract tree (height + 1) pos x =
      let left := E.traverseAndExtract tree height (pos * 2) x.afterBit
      let right := E.traverseAndExtract tree height (pos * 2 + 1) left.2
      if pos * 2 + 1 < width tree.nTransactions height then
        (E.merkleParent left.1 right.1,
          if right.1 = left.1 then { right.2 with fBad := true } else right.2)
      else (E.merkleParent left.1 left.1, left.2) := by
  rw [traverseAndExtract, hbit]

theorem openedPairs_true (hbit : tree.vBits[x.nBitsUsed]? = some true) :
    E.openedPairs tree (height + 1) pos x =
      let left := E.traverseAndExtract tree height (pos * 2) x.afterBit
      let right := E.traverseAndExtract tree height (pos * 2 + 1) left.2
      if pos * 2 + 1 < width tree.nTransactions height then
        (left.1, right.1) :: (E.openedPairs tree height (pos * 2) x.afterBit ++
          E.openedPairs tree height (pos * 2 + 1) left.2)
      else (left.1, left.1) :: E.openedPairs tree height (pos * 2) x.afterBit := by
  rw [openedPairs, hbit]

theorem storedHash_counters (height pos : Nat) (fParentOfMatch : Bool) (x : Extraction) :
    let y := (storedHash tree height pos fParentOfMatch x).2
    y.nBitsUsed = x.nBitsUsed ∧ y.nHashUsed ≤ x.nHashUsed + 1 ∧
      (y.fBad = false → x.fBad = false) := by
  unfold storedHash
  cases tree.vHash[x.nHashUsed]? with
  | none => simp
  | some hash =>
    dsimp only
    split
    · exact ⟨rfl, le_refl _, id⟩
    · exact ⟨rfl, le_refl _, id⟩

/-- At most a bit for each node and a hash for each leaf. -/
theorem traverseAndExtract_counters (height : Nat) : ∀ (pos : Nat) (x : Extraction),
    let y := (E.traverseAndExtract tree height pos x).2
    y.nBitsUsed + 1 ≤ x.nBitsUsed + 2 ^ (height + 1) ∧
      y.nHashUsed ≤ x.nHashUsed + 2 ^ height ∧ (y.fBad = false → x.fBad = false) := by
  induction height with
  | zero =>
    intro pos x
    cases hbit : tree.vBits[x.nBitsUsed]? with
    | none =>
      rw [traverseAndExtract_none hbit]
      simp
    | some fParentOfMatch =>
      rw [traverseAndExtract_zero hbit]
      obtain ⟨hbits, hhashes, hbad⟩ := @storedHash_counters tree 0 pos fParentOfMatch x.afterBit
      exact ⟨by rw [hbits]; rfl, hhashes, hbad⟩
  | succ height ih =>
    intro pos x
    have hpos : 0 < 2 ^ height := Nat.two_pow_pos height
    have hbitsPow : 2 ^ (height + 1 + 1) = 2 ^ (height + 1) + 2 ^ (height + 1) := by ring
    have hhashPow : 2 ^ (height + 1) = 2 ^ height + 2 ^ height := by ring
    cases hbit : tree.vBits[x.nBitsUsed]? with
    | none =>
      rw [traverseAndExtract_none hbit]
      exact ⟨by dsimp only; omega, Nat.le_add_right _ _, fun h => by cases h⟩
    | some fParentOfMatch =>
      cases fParentOfMatch with
      | false =>
        rw [traverseAndExtract_false hbit]
        obtain ⟨hbits, hhashes, hbad⟩ :=
          @storedHash_counters tree (height + 1) pos false x.afterBit
        refine ⟨?_, ?_, hbad⟩
        · rw [hbits]
          simp only
          omega
        · exact hhashes.trans (by simp only; omega)
      | true =>
        rw [traverseAndExtract_true hbit]
        obtain ⟨hbits, hhashes, hbad⟩ := ih (pos * 2) x.afterBit
        dsimp only at *
        split
        · obtain ⟨hbits', hhashes', hbad'⟩ := ih (pos * 2 + 1)
            (E.traverseAndExtract tree height (pos * 2) x.afterBit).2
          dsimp only
          split
          · exact ⟨by dsimp only; omega, by dsimp only; omega, fun h => by cases h⟩
          · exact ⟨by omega, by omega, fun h => hbad (hbad' h)⟩
        · exact ⟨by dsimp only; omega, by dsimp only; omega, hbad⟩

/-! ### Nothing is read behind the end -/

theorem storedHashAt_eq (hroom : x.nHashUsed + 1 < 2 ^ 32) (height pos : Nat)
    (fParentOfMatch : Bool) :
    storedHashAt tree height pos fParentOfMatch x =
      .ok (storedHash tree height pos fParentOfMatch x) := by
  unfold storedHashAt storedHash
  cases hhash : tree.vHash[x.nHashUsed]? with
  | none =>
    rw [if_pos (List.getElem?_eq_none_iff.mp hhash)]
    rfl
  | some hash =>
    obtain ⟨hlt, -⟩ := List.getElem?_eq_some_iff.mp hhash
    rw [if_neg (not_le.mpr hlt), readAt_eq_ok hhash, ok_bind, Nat.mod_eq_of_lt hroom]
    dsimp only
    split
    · rfl
    · rfl

theorem afterBit_eq (hroom : x.nBitsUsed + 1 < 2 ^ 32) :
    ({ x with nBitsUsed := (x.nBitsUsed + 1) % 2 ^ 32 } : Extraction) = x.afterBit := by
  rw [Nat.mod_eq_of_lt hroom]

theorem traverseAndExtractAt_eq (height : Nat) : ∀ {pos : Nat} {x : Extraction},
    x.nBitsUsed + 2 ^ (height + 1) < 2 ^ 32 → x.nHashUsed + 2 ^ height < 2 ^ 32 →
      E.traverseAndExtractAt tree height pos x = .ok (E.traverseAndExtract tree height pos x) := by
  induction height with
  | zero =>
    intro pos x hbits hhashes
    rw [traverseAndExtractAt]
    cases hbit : tree.vBits[x.nBitsUsed]? with
    | none =>
      rw [if_pos (List.getElem?_eq_none_iff.mp hbit), traverseAndExtract_none hbit]
      rfl
    | some fParentOfMatch =>
      obtain ⟨hlt, -⟩ := List.getElem?_eq_some_iff.mp hbit
      rw [if_neg (not_le.mpr hlt), readAt_eq_ok hbit, ok_bind, afterBit_eq (by omega),
        traverseAndExtract_zero hbit]
      exact storedHashAt_eq (x := x.afterBit) hhashes _ _ _
  | succ height ih =>
    intro pos x hbits hhashes
    have hpos : 0 < 2 ^ height := Nat.two_pow_pos height
    have hbitsPow : 2 ^ (height + 1 + 1) = 2 ^ (height + 1) + 2 ^ (height + 1) := by ring
    have hhashPow : 2 ^ (height + 1) = 2 ^ height + 2 ^ height := by ring
    rw [traverseAndExtractAt]
    cases hbit : tree.vBits[x.nBitsUsed]? with
    | none =>
      rw [if_pos (List.getElem?_eq_none_iff.mp hbit), traverseAndExtract_none hbit]
      rfl
    | some fParentOfMatch =>
      obtain ⟨hlt, -⟩ := List.getElem?_eq_some_iff.mp hbit
      rw [if_neg (not_le.mpr hlt), readAt_eq_ok hbit, ok_bind, afterBit_eq (by omega)]
      cases fParentOfMatch with
      | false =>
        rw [traverseAndExtract_false hbit]
        exact storedHashAt_eq (x := x.afterBit) (by dsimp only; omega) _ _ _
      | true =>
        obtain ⟨hbits', hhashes', -⟩ :=
          @traverseAndExtract_counters E tree height (pos * 2) x.afterBit
        dsimp only at hbits' hhashes'
        have hleft := @ih (pos * 2) x.afterBit (by dsimp only; omega) (by dsimp only; omega)
        dsimp only
        rw [if_neg (by decide), hleft, ok_bind, traverseAndExtract_true hbit]
        dsimp only
        split
        · rw [ih (by omega) (by omega)]
          rfl
        · rfl

theorem extractMatchesAt_eq (E : NodeEnv) (tree : CPartialMerkleTree) :
    E.extractMatchesAt tree = .ok (E.extractMatches tree) := by
  have hmax : MAX_BLOCK_WEIGHT / MIN_TRANSACTION_WEIGHT = 16666 := rfl
  unfold extractMatchesAt extractMatches
  by_cases hempty : tree.nTransactions = 0
  · rw [if_pos hempty, if_pos hempty]
    rfl
  rw [if_neg hempty, if_neg hempty]
  by_cases hmany : MAX_BLOCK_WEIGHT / MIN_TRANSACTION_WEIGHT < tree.nTransactions
  · rw [if_pos hmany, if_pos hmany]
    rfl
  rw [if_neg hmany, if_neg hmany]
  have hheight : treeHeight tree.nTransactions ≤ 15 := treeHeight_le (by omega)
  have hbits : 2 ^ (treeHeight tree.nTransactions + 1) ≤ 2 ^ 16 :=
    Nat.pow_le_pow_right (by decide) (by omega)
  have hhashes : 2 ^ treeHeight tree.nTransactions ≤ 2 ^ 15 :=
    Nat.pow_le_pow_right (by decide) hheight
  rw [traverseAndExtractAt_eq _ (by dsimp only; omega) (by dsimp only; omega), ok_bind]
  dsimp only
  repeat' split
  all_goals rfl

/-! ### Soundness -/

theorem calcHash_pair_mem (hpos : pos < width T.length (height + 1))
    (hheight : height < treeHeight T.length) :
    (E.calcHash T.length T height (pos * 2),
      if pos * 2 + 1 < width T.length height then E.calcHash T.length T height (pos * 2 + 1)
      else E.calcHash T.length T height (pos * 2)) ∈ E.committedPairs T := by
  apply mem_combined _ hheight
  apply mem_of_getElem? (i := pos)
  rw [getElem?_pairs, row_calcHash (left_lt hpos), Option.map_some]
  by_cases hright : pos * 2 + 1 < width T.length height
  · rw [if_pos hright, row_calcHash hright, Option.getD_some]
  · have hnone : (row E.merkleParent T height)[pos * 2 + 1]? = none := by
      rw [List.getElem?_eq_none_iff, length_row]
      omega
    rw [if_neg hright, hnone, Option.getD_none]

/-- Between two states: leaves below a node, in order. -/
structure Collected (below : List Nat) (x y : Extraction) (found : List (Nat × UInt256)) : Prop where
  vnIndex : y.vnIndex = x.vnIndex ++ found.map Prod.fst
  vMatch : y.vMatch = x.vMatch ++ found.map Prod.snd
  order : (found.map Prod.fst).Sublist below

theorem Collected.append {below below' : List Nat} {y z : Extraction}
    {found found' : List (Nat × UInt256)} (h : Collected below x y found)
    (h' : Collected below' y z found') : Collected (below ++ below') x z (found ++ found') where
  vnIndex := by rw [h'.vnIndex, h.vnIndex, map_append, append_assoc]
  vMatch := by rw [h'.vMatch, h.vMatch, map_append, append_assoc]
  order := by
    rw [map_append]
    exact h.order.append h'.order

theorem storedHash_found (height pos : Nat) (fParentOfMatch : Bool) (x : Extraction) :
    let y := storedHash tree height pos fParentOfMatch x
    Collected [] x y.2 [] ∨ (height = 0 ∧ Collected [pos] x y.2 [(pos, y.1)]) := by
  unfold storedHash
  cases tree.vHash[x.nHashUsed]? with
  | none => exact Or.inl ⟨by simp, by simp, List.Sublist.refl _⟩
  | some hash =>
    dsimp only
    split
    · next hmatch =>
      rw [Bool.and_eq_true, beq_iff_eq] at hmatch
      exact Or.inr ⟨hmatch.1, rfl, rfl, List.Sublist.refl _⟩
    · exact Or.inl ⟨by simp, by simp, List.Sublist.refl _⟩

theorem extractMatches_eq_root {root : UInt256} {vMatch : List UInt256} {vnIndex : List Nat}
    (h : E.extractMatches tree = (root, vMatch, vnIndex)) (hnonnull : root ≠ 0) :
    let y := E.traverseAndExtract tree (treeHeight tree.nTransactions) 0 { fBad := tree.fBad }
    tree.nTransactions ≠ 0 ∧ y.2.fBad = false ∧ y.1 = root ∧ y.2.vMatch = vMatch ∧
      y.2.vnIndex = vnIndex := by
  unfold extractMatches at h
  dsimp only at h ⊢
  repeat' split at h
  all_goals
    simp only [Prod.mk.injEq] at h
    obtain ⟨hroot, hmatch, hindex⟩ := h
  all_goals first
    | exact absurd hroot.symm hnonnull
    | exact ⟨‹_›, by simpa using ‹¬ _ = true›, hroot, hmatch, hindex⟩

/-- Equal hashes are hashes of equal pairs: the children are right again. -/
theorem traverseAndExtract_found (hn : tree.nTransactions = T.length) (height : Nat) :
    ∀ {pos : Nat} {x : Extraction}, pos < width T.length height →
      ∃ found, Collected (leavesBelow T.length height pos) x
          (E.traverseAndExtract tree height pos x).2 found ∧
        ((E.traverseAndExtract tree height pos x).2.fBad = false →
          (E.traverseAndExtract tree height pos x).1 = E.calcHash T.length T height pos →
          height ≤ treeHeight T.length →
          E.CollisionFreeAmong (E.openedPairs tree height pos x) (E.committedPairs T) →
          ∀ e ∈ found, T[e.1]? = some e.2) := by
  induction height with
  | zero =>
    intro pos x hpos
    rw [width_zero] at hpos
    rw [leavesBelow_zero hpos]
    cases hbit : tree.vBits[x.nBitsUsed]? with
    | none =>
      rw [traverseAndExtract_none hbit]
      exact ⟨[], ⟨by simp, by simp, nil_sublist _⟩, by simp⟩
    | some fParentOfMatch =>
      rw [traverseAndExtract_zero hbit]
      rcases @storedHash_found tree 0 pos fParentOfMatch x.afterBit with hnone | ⟨-, hone⟩
      · exact ⟨[], ⟨hnone.vnIndex, hnone.vMatch, nil_sublist _⟩, by simp⟩
      · refine ⟨_, ⟨hone.vnIndex, hone.vMatch, hone.order⟩, ?_⟩
        intro _ hhash _ _ e he
        rw [mem_singleton.mp he, hhash, calcHash, getD_eq_getElem _ _ hpos,
          getElem?_eq_getElem hpos]
  | succ height ih =>
    intro pos x hpos
    cases hbit : tree.vBits[x.nBitsUsed]? with
    | none =>
      rw [traverseAndExtract_none hbit]
      exact ⟨[], ⟨by simp, by simp, nil_sublist _⟩, by simp⟩
    | some fParentOfMatch =>
      cases fParentOfMatch with
      | false =>
        rw [traverseAndExtract_false hbit]
        rcases @storedHash_found tree (height + 1) pos false x.afterBit with hnone | ⟨hzero, -⟩
        · exact ⟨[], ⟨hnone.vnIndex, hnone.vMatch, nil_sublist _⟩, by simp⟩
        · cases hzero
      | true =>
        obtain ⟨found, hfound, hsound⟩ := @ih (pos * 2) x.afterBit (left_lt hpos)
        rw [traverseAndExtract_true hbit, openedPairs_true hbit, leavesBelow_succ, hn]
        generalize E.traverseAndExtract tree height (pos * 2) x.afterBit = left at *
        dsimp only
        by_cases hright : pos * 2 + 1 < width T.length height
        · obtain ⟨found', hfound', hsound'⟩ := @ih (pos * 2 + 1) left.2 hright
          have hbad := (@traverseAndExtract_counters E tree height (pos * 2 + 1) left.2).2.2
          rw [if_pos hright, if_pos hright]
          generalize E.traverseAndExtract tree height (pos * 2 + 1) left.2 = right at *
          dsimp only at *
          have hindex : (if right.1 = left.1 then { right.2 with fBad := true }
              else right.2).vnIndex = right.2.vnIndex := by split <;> rfl
          have hmatch : (if right.1 = left.1 then { right.2 with fBad := true }
              else right.2).vMatch = right.2.vMatch := by split <;> rfl
          have hboth := hfound.append hfound'
          refine ⟨found ++ found', ⟨hindex.trans hboth.vnIndex, hmatch.trans hboth.vMatch,
            hboth.order⟩, ?_⟩
          intro hgood hhash hheight hfree e he
          rw [if_neg (fun heq => by rw [if_pos heq] at hgood; cases hgood)] at hgood
          have hpair := hfree _ mem_cons_self _ (calcHash_pair_mem hpos hheight) hhash
          rw [if_pos hright, Prod.mk.injEq] at hpair
          rcases mem_append.mp he with he | he
          · exact hsound (hbad hgood) hpair.1 (by omega)
              (hfree.mono fun p hp => mem_cons_of_mem _ (mem_append_left _ hp)) e he
          · exact hsound' hgood hpair.2 (by omega)
              (hfree.mono fun p hp => mem_cons_of_mem _ (mem_append_right _ hp)) e he
        · -- the last node of an odd row is hashed with itself
          rw [if_neg hright, if_neg hright, leavesBelow_eq_nil (not_lt.mp hright), append_nil]
          refine ⟨found, ⟨hfound.vnIndex, hfound.vMatch, hfound.order⟩, ?_⟩
          intro hgood hhash hheight hfree
          have hpair := hfree _ mem_cons_self _ (calcHash_pair_mem hpos hheight) hhash
          rw [if_neg hright, Prod.mk.injEq] at hpair
          exact hsound hgood hpair.1 (by omega)
            (hfree.mono fun p hp => mem_cons_of_mem _ hp)

theorem leavesBelow_sorted (n height pos : Nat) : (leavesBelow n height pos).Pairwise (· < ·) :=
  List.Pairwise.filter _ pairwise_lt_range'

/-- **Partial Merkle trees are sound**: nothing behind an array is read; and at the root of a list
    of as many ids, the returned ids are in it at the returned positions, which increase. -/
theorem partialMerkleTree_sound (E : NodeEnv) :
    (∀ tree, E.extractMatchesAt tree = .ok (E.extractMatches tree)) ∧
    ∀ (T : List UInt256) (tree : CPartialMerkleTree) (root : UInt256) (vMatch : List UInt256)
      (vnIndex : List Nat), tree.nTransactions = T.length →
      E.CollisionFreeAmong (E.extractedPairs tree) (E.committedPairs T) →
      E.extractMatchesAt tree = .ok (root, vMatch, vnIndex) → root ≠ 0 →
      root = (E.computeMerkleRoot T).1 →
      vnIndex.map (fun position => T[position]?) = vMatch.map some ∧
        vnIndex.Pairwise (· < ·) := by
  refine ⟨extractMatchesAt_eq E, ?_⟩
  intro T tree root vMatch vnIndex hn hfree hextract hnonnull hroot
  rw [extractMatchesAt_eq, Except.ok.injEq] at hextract
  obtain ⟨hne, hgood, hhash, hmatch, hindex⟩ := extractMatches_eq_root hextract hnonnull
  have hlist : T ≠ [] := by
    rintro rfl
    exact hne hn
  obtain ⟨hone, -⟩ := width_treeHeight T.length
  have htop : 0 < width T.length (treeHeight T.length) := by
    rw [width_eq_one (length_pos_iff.mpr hlist) hone]
    omega
  obtain ⟨found, hfound, hsound⟩ := @traverseAndExtract_found E tree T hn
    (treeHeight T.length) 0 { fBad := tree.fBad } htop
  rw [extractedPairs, hn] at hfree
  rw [hn] at hgood hhash hmatch hindex
  have hright := hsound hgood (hhash.trans (hroot.trans (computeMerkleRoot_eq hlist)))
    (le_refl _) hfree
  rw [← hindex, ← hmatch, hfound.vnIndex, hfound.vMatch]
  constructor
  · simp only [nil_append, map_map]
    exact map_congr_left hright
  · exact (leavesBelow_sorted _ _ _).sublist hfound.order

end NodeEnv

def Regtest.firstOfTwo : CPartialMerkleTree :=
  ⟨2, [true, true, false, false, false, false, false, false], [1, 2], false⟩

theorem Regtest.firstOfTwo_sound :
    ([0] : List Nat).map (fun position => ([1, 2] : List UInt256)[position]?) =
      ([1] : List UInt256).map some ∧ ([0] : List Nat).Pairwise (· < ·) := by
  refine (Regtest.env.partialMerkleTree_sound).2 [1, 2] Regtest.firstOfTwo Regtest.pairNode
    [1] [0] rfl ?_ ?_ (by decide) ?_
  · have hpairs : Regtest.env.extractedPairs Regtest.firstOfTwo = [(1, 2)] := rfl
    have hcommitted : Regtest.env.committedPairs [1, 2] = [(1, 2)] := rfl
    intro p hp q hq _
    rw [hpairs, mem_singleton] at hp
    rw [hcommitted, mem_singleton] at hq
    rw [hp, hq]
  · rw [← Regtest.pairNode_eq]
    rfl
  · rw [← Regtest.pairNode_eq]
    rfl

end VBitcoin
