import VBitcoin.Merkle
import VBitcoin.RowTree

/-!
**Partial Merkle trees** (`merkleblock.cpp`) — `TraverseAndBuild` writes the nodes that are
needed to recompute the root from some transaction ids, in preorder, as flag bits and hashes;
`TraverseAndExtract` reads them back, as long as no two siblings have the same hash
(`noTwins_row`).
-/

namespace VBitcoin

open RowTree List

structure CPartialMerkleTree where
  nTransactions : Nat
  vBits : List Bool
  vHash : List UInt256
  fBad : Bool
  deriving DecidableEq, Repr

structure Extraction where
  nBitsUsed : Nat := 0
  nHashUsed : Nat := 0
  vMatch : List UInt256 := []
  vnIndex : List Nat := []
  fBad : Bool := false
  deriving DecidableEq, Repr

def MIN_TRANSACTION_WEIGHT : Nat := WITNESS_SCALE_FACTOR * 60

/-- `CalcTreeWidth`: `(nTransactions + (1 << height) - 1) >> height`. -/
abbrev calcTreeWidth (nTransactions height : Nat) : Nat := width nTransactions height

/-- As many turns as leaves are enough. -/
def treeHeightFrom (nTransactions : Nat) : Nat → Nat → Nat
  | 0, nHeight => nHeight
  | turns + 1, nHeight =>
    if 1 < calcTreeWidth nTransactions nHeight then
      treeHeightFrom nTransactions turns (nHeight + 1)
    else nHeight

def treeHeight (nTransactions : Nat) : Nat := treeHeightFrom nTransactions nTransactions 0

namespace NodeEnv

variable (E : NodeEnv)

def calcHash (nTransactions : Nat) (vTxid : List UInt256) : Nat → Nat → UInt256
  | 0, pos => vTxid.getD pos 0
  | height + 1, pos =>
    let left := calcHash nTransactions vTxid height (pos * 2)
    let right :=
      if pos * 2 + 1 < calcTreeWidth nTransactions height then
        calcHash nTransactions vTxid height (pos * 2 + 1)
      else left
    E.merkleParent left right

def parentOfMatch (nTransactions : Nat) (vMatch : List Bool) (height pos : Nat) : Bool :=
  (leavesBelow nTransactions height pos).any fun p => vMatch.getD p false

/-- `TraverseAndBuild`: the bits and hashes that it appends. -/
def traverseAndBuild (nTransactions : Nat) (vTxid : List UInt256) (vMatch : List Bool) :
    Nat → Nat → List Bool × List UInt256
  | 0, pos => ([parentOfMatch nTransactions vMatch 0 pos], [E.calcHash nTransactions vTxid 0 pos])
  | height + 1, pos =>
    if parentOfMatch nTransactions vMatch (height + 1) pos then
      let left := traverseAndBuild nTransactions vTxid vMatch height (pos * 2)
      let right :=
        if pos * 2 + 1 < calcTreeWidth nTransactions height then
          traverseAndBuild nTransactions vTxid vMatch height (pos * 2 + 1)
        else ([], [])
      (true :: (left.1 ++ right.1), left.2 ++ right.2)
    else ([false], [E.calcHash nTransactions vTxid (height + 1) pos])

/-- `CalcHash` asserts that there are ids. -/
def partialMerkleTree (vTxid : List UInt256) (vMatch : List Bool) : Run CPartialMerkleTree := do
  let nTransactions := vTxid.length % 2 ^ 32
  require (!vTxid.isEmpty) (.assertion "vTxid.size() != 0")
  let (vBits, vHash) := E.traverseAndBuild nTransactions vTxid vMatch (treeHeight nTransactions) 0
  pure { nTransactions, vBits, vHash, fBad := false }

/-- A node that is not descended into. -/
def storedHash (tree : CPartialMerkleTree) (height pos : Nat) (fParentOfMatch : Bool)
    (x : Extraction) : UInt256 × Extraction :=
  match tree.vHash[x.nHashUsed]? with
  | none => (0, { x with fBad := true })
  | some hash =>
    let x := { x with nHashUsed := x.nHashUsed + 1 }
    if height == 0 && fParentOfMatch then
      (hash, { x with vMatch := x.vMatch ++ [hash], vnIndex := x.vnIndex ++ [pos] })
    else (hash, x)

def traverseAndExtract (tree : CPartialMerkleTree) : Nat → Nat → Extraction → UInt256 × Extraction
  | 0, pos, x =>
    match tree.vBits[x.nBitsUsed]? with
    | none => (0, { x with fBad := true })
    | some fParentOfMatch =>
      storedHash tree 0 pos fParentOfMatch { x with nBitsUsed := x.nBitsUsed + 1 }
  | height + 1, pos, x =>
    match tree.vBits[x.nBitsUsed]? with
    | none => (0, { x with fBad := true })
    | some false => storedHash tree (height + 1) pos false { x with nBitsUsed := x.nBitsUsed + 1 }
    | some true =>
      let (left, x) := traverseAndExtract tree height (pos * 2)
        { x with nBitsUsed := x.nBitsUsed + 1 }
      if pos * 2 + 1 < calcTreeWidth tree.nTransactions height then
        let (right, x) := traverseAndExtract tree height (pos * 2 + 1) x
        (E.merkleParent left right, if right = left then { x with fBad := true } else x)
      else (E.merkleParent left left, x)

/-- `ExtractMatches`: the root, or null in case of failure, and the matches. -/
def extractMatches (tree : CPartialMerkleTree) : UInt256 × List UInt256 × List Nat :=
  if tree.nTransactions = 0 then (0, [], [])
  else if MAX_BLOCK_WEIGHT / MIN_TRANSACTION_WEIGHT < tree.nTransactions then (0, [], [])
  else if tree.nTransactions < tree.vHash.length then (0, [], [])
  else if tree.vBits.length < tree.vHash.length then (0, [], [])
  else
    let (hashMerkleRoot, x) :=
      E.traverseAndExtract tree (treeHeight tree.nTransactions) 0 { fBad := tree.fBad }
    if x.fBad then (0, x.vMatch, x.vnIndex)
    else if (x.nBitsUsed + 7) / 8 ≠ (tree.vBits.length + 7) / 8 then (0, x.vMatch, x.vnIndex)
    else if x.nHashUsed ≠ tree.vHash.length then (0, x.vMatch, x.vnIndex)
    else (hashMerkleRoot, x.vMatch, x.vnIndex)

end NodeEnv

/-! ### The height of the tree -/

theorem width_treeHeightFrom {n turns height : Nat} (hturns : n ≤ 2 ^ (height + turns))
    (hbelow : ∀ h < height, 1 < width n h) :
    width n (treeHeightFrom n turns height) ≤ 1 ∧
      ∀ h < treeHeightFrom n turns height, 1 < width n h := by
  induction turns generalizing height with
  | zero => exact ⟨width_le_one.mpr hturns, hbelow⟩
  | succ turns ih =>
    rw [treeHeightFrom, calcTreeWidth]
    split
    · next hwide =>
      apply ih
      · rwa [Nat.add_right_comm]
      · intro h hh
        rcases Nat.lt_succ_iff_lt_or_eq.mp hh with hlt | rfl
        · exact hbelow h hlt
        · exact hwide
    · next hnarrow => exact ⟨not_lt.mp hnarrow, hbelow⟩

theorem width_treeHeight (n : Nat) :
    width n (treeHeight n) ≤ 1 ∧ ∀ h < treeHeight n, 1 < width n h := by
  apply width_treeHeightFrom
  · rw [Nat.zero_add]
    exact Nat.lt_two_pow_self.le
  · intro h hh
    omega

theorem treeHeight_le {n height : Nat} (h : n ≤ 2 ^ height) : treeHeight n ≤ height := by
  by_contra hnot
  have := (width_treeHeight n).2 height (not_le.mp hnot)
  have := width_le_one.mpr h
  omega

namespace NodeEnv

variable {E : NodeEnv} {vTxid : List UInt256} {vMatch : List Bool}

/-! ### Hashes of nodes -/

theorem merkleLevel_eq (hashes : List UInt256) :
    E.merkleLevel hashes = pairUp E.merkleParent hashes := by
  induction hashes using pairUp.induct with
  | case1 left right rest ih => rw [merkleLevel, pairUp, ih]
  | case2 last => rw [merkleLevel, pairUp]
  | case3 => rw [merkleLevel, pairUp]

variable {height pos n : Nat}

theorem row_calcHash (h : pos < width vTxid.length height) :
    (row E.merkleParent vTxid height)[pos]? = some (E.calcHash vTxid.length vTxid height pos) := by
  induction height generalizing pos with
  | zero =>
    rw [width_zero] at h
    rw [calcHash, getD_eq_getElem?_getD]
    change vTxid[pos]? = _
    rw [getElem?_eq_getElem h, Option.getD_some]
  | succ height ih =>
    rw [row_succ, getElem?_pairUp, ih (left_lt h), Option.map_some]
    simp only [calcHash]
    by_cases hright : pos * 2 + 1 < width vTxid.length height
    · rw [if_pos hright, ih hright, Option.getD_some]
    · have hnone : (row E.merkleParent vTxid height)[pos * 2 + 1]? = none := by
        rw [List.getElem?_eq_none_iff, length_row]
        omega
      rw [if_neg hright, hnone, Option.getD_none]

theorem computeMerkleRoot_row (h : ∀ k < height, 1 < width vTxid.length k) :
    (E.computeMerkleRoot vTxid).1 = (E.computeMerkleRoot (row E.merkleParent vTxid height)).1 ∧
      ((E.computeMerkleRoot vTxid).2 = false →
        (E.computeMerkleRoot (row E.merkleParent vTxid height)).2 = false ∧
          ∀ k < height, hasEqualPair (row E.merkleParent vTxid k) = false) := by
  induction height with
  | zero => exact ⟨rfl, fun hfalse => ⟨hfalse, fun k hk => by omega⟩⟩
  | succ height ih =>
    obtain ⟨hroot, hmutated⟩ := ih fun k hk => h k (by omega)
    have hstep := E.computeMerkleRoot_step (row E.merkleParent vTxid height)
      (by rw [length_row]; exact h height (by omega))
    rw [merkleLevel_eq, ← row_succ] at hstep
    constructor
    · rw [hroot, hstep]
    intro hfalse
    obtain ⟨hrow, hpairs⟩ := hmutated hfalse
    rw [hstep, Bool.or_eq_false_iff] at hrow
    refine ⟨hrow.2, ?_⟩
    intro k hk
    rcases Nat.lt_succ_iff_lt_or_eq.mp hk with hlt | rfl
    · exact hpairs k hlt
    · exact hrow.1

/-- **The root is the node at the top.** -/
theorem computeMerkleRoot_eq (hne : vTxid ≠ []) :
    (E.computeMerkleRoot vTxid).1 =
      E.calcHash vTxid.length vTxid (treeHeight vTxid.length) 0 := by
  obtain ⟨hone, hwide⟩ := width_treeHeight vTxid.length
  have hwidth := width_eq_one (length_pos_iff.mpr hne) hone
  have hrow : (row E.merkleParent vTxid (treeHeight vTxid.length))[0]? =
      some (E.calcHash vTxid.length vTxid (treeHeight vTxid.length) 0) := row_calcHash (by omega)
  have hlength := length_row E.merkleParent vTxid (treeHeight vTxid.length)
  rw [hwidth] at hlength
  obtain ⟨root, hroot⟩ := length_eq_one_iff.mp hlength
  rw [(computeMerkleRoot_row hwide).1]
  rw [hroot] at hrow ⊢
  exact Option.some.inj hrow

theorem getElem?_ne_of_hasEqualPair {hashes : List UInt256} (h : hasEqualPair hashes = false)
    (hpos : pos * 2 + 1 < hashes.length) :
    hashes[pos * 2]? ≠ hashes[pos * 2 + 1]? := by
  induction hashes using hasEqualPair.induct generalizing pos with
  | case1 left right rest ih =>
    rw [hasEqualPair, Bool.or_eq_false_iff, beq_eq_false_iff_ne] at h
    cases pos with
    | zero => exact fun heq => h.1 (Option.some.inj heq)
    | succ pos =>
      rw [Nat.add_one_mul] at hpos ⊢
      simp only [length_cons] at hpos
      exact ih h.2 (by omega)
  | case2 hashes hshort =>
    match hashes, hpos, hshort with
    | left :: right :: rest, _, hshort => exact absurd rfl (hshort left right rest)

theorem noTwins_row (hmutated : (E.computeMerkleRoot vTxid).2 = false) {k : Nat}
    (hk : k < treeHeight vTxid.length) : NoTwins (row E.merkleParent vTxid k) := by
  obtain ⟨-, hpairs⟩ := (computeMerkleRoot_row (width_treeHeight vTxid.length).2).2 hmutated
  exact fun pos hpos => getElem?_ne_of_hasEqualPair (hpairs k hk) hpos

theorem siblings_ne (hlone : ∀ k < treeHeight vTxid.length, NoTwins (row E.merkleParent vTxid k))
    (hpos : pos * 2 + 1 < width vTxid.length height) :
    E.calcHash vTxid.length vTxid height (pos * 2) ≠
      E.calcHash vTxid.length vTxid height (pos * 2 + 1) := by
  obtain ⟨hone, -⟩ := width_treeHeight vTxid.length
  have hheight : height < treeHeight vTxid.length := by
    by_contra hnot
    have hpow := Nat.pow_le_pow_right (show 0 < 2 by omega) (not_lt.mp hnot)
    have := width_le_one.mpr ((width_le_one.mp hone).trans hpow)
    omega
  have hne := hlone height hheight pos (by rwa [length_row])
  rw [row_calcHash hpos, row_calcHash (by omega)] at hne
  exact fun heq => hne (congrArg some heq)

/-! ### Nodes that are written -/

theorem traverseAndBuild_of_not (h : parentOfMatch n vMatch (height + 1) pos = false) :
    E.traverseAndBuild n vTxid vMatch (height + 1) pos =
      ([false], [E.calcHash n vTxid (height + 1) pos]) := by
  rw [traverseAndBuild, h]
  rfl

theorem traverseAndBuild_of_parent (h : parentOfMatch n vMatch (height + 1) pos = true) :
    E.traverseAndBuild n vTxid vMatch (height + 1) pos =
      let left := E.traverseAndBuild n vTxid vMatch height (pos * 2)
      let right :=
        if pos * 2 + 1 < width n height then E.traverseAndBuild n vTxid vMatch height (pos * 2 + 1)
        else ([], [])
      (true :: (left.1 ++ right.1), left.2 ++ right.2) := by
  rw [traverseAndBuild, h]
  rfl

/-- Every hash comes with a bit, and each leaf has at most one in every row. -/
theorem length_traverseAndBuild (n : Nat) (height : Nat) : ∀ {pos : Nat}, pos < width n height →
    (E.traverseAndBuild n vTxid vMatch height pos).2.length ≤ (leavesBelow n height pos).length ∧
    (E.traverseAndBuild n vTxid vMatch height pos).2.length ≤
      (E.traverseAndBuild n vTxid vMatch height pos).1.length ∧
    (E.traverseAndBuild n vTxid vMatch height pos).1.length ≤
      (height + 1) * (leavesBelow n height pos).length := by
  induction height with
  | zero =>
    intro pos hpos
    rw [Nat.zero_add, Nat.one_mul]
    exact ⟨length_leavesBelow_pos hpos, le_refl _, length_leavesBelow_pos hpos⟩
  | succ height ih =>
    intro pos hpos
    have hleaves := length_leavesBelow_pos hpos
    rw [Nat.add_one_mul (height + 1)]
    cases hparent : parentOfMatch n vMatch (height + 1) pos with
    | false =>
      rw [traverseAndBuild_of_not hparent]
      exact ⟨hleaves, le_refl _, Nat.le_add_left_of_le hleaves⟩
    | true =>
      obtain ⟨hhashes, hcome, hbits⟩ := ih (left_lt hpos)
      rw [leavesBelow_succ, length_append] at hleaves ⊢
      rw [traverseAndBuild_of_parent hparent, Nat.mul_add]
      by_cases hright : pos * 2 + 1 < width n height
      · obtain ⟨hhashes', hcome', hbits'⟩ := ih hright
        simp only [if_pos hright, length_append, length_cons]
        omega
      · simp only [if_neg hright, length_append, length_cons, length_nil]
        omega

/-! ### Reading a tree back -/

def matchesBelow (nTransactions : Nat) (vMatch : List Bool) (height pos : Nat) : List Nat :=
  (leavesBelow nTransactions height pos).filter fun p => vMatch.getD p false

theorem matchesBelow_of_not (h : parentOfMatch n vMatch height pos = false) :
    matchesBelow n vMatch height pos = [] := by
  unfold matchesBelow
  rw [filter_eq_nil_iff]
  intro p hp hmatch
  rw [parentOfMatch, any_eq_false] at h
  exact h p hp hmatch

theorem matchesBelow_succ (n : Nat) (vMatch : List Bool) (height pos : Nat) :
    matchesBelow n vMatch (height + 1) pos =
      matchesBelow n vMatch height (pos * 2) ++ matchesBelow n vMatch height (pos * 2 + 1) := by
  unfold matchesBelow
  rw [leavesBelow_succ, filter_append]

def afterNode (x : Extraction) (node : List Bool × List UInt256) (matched : List Nat)
    (vTxid : List UInt256) : Extraction where
  nBitsUsed := x.nBitsUsed + node.1.length
  nHashUsed := x.nHashUsed + node.2.length
  vMatch := x.vMatch ++ matched.map fun p => vTxid.getD p 0
  vnIndex := x.vnIndex ++ matched
  fBad := x.fBad

structure Ahead (tree : CPartialMerkleTree) (x : Extraction) (node : List Bool × List UInt256) :
    Prop where
  bits : node.1 <+: tree.vBits.drop x.nBitsUsed
  hashes : node.2 <+: tree.vHash.drop x.nHashUsed

theorem getElem?_of_cons_prefix_drop {α : Type} {a : α} {l list : List α} {i : Nat}
    (h : a :: l <+: list.drop i) : list[i]? = some a ∧ l <+: list.drop (i + 1) := by
  obtain ⟨rest, hrest⟩ := h
  have hdrop : list.drop (i + 1) = (list.drop i).drop 1 := by rw [drop_drop]
  rw [hdrop, ← hrest]
  have hget : (list.drop i)[0]? = list[i + 0]? := getElem?_drop
  rw [← hrest] at hget
  exact ⟨hget.symm, prefix_append l rest⟩

theorem append_prefix_drop {α : Type} {l l' list : List α} {i : Nat}
    (h : l ++ l' <+: list.drop i) : l <+: list.drop i ∧ l' <+: list.drop (i + l.length) := by
  refine ⟨(prefix_append l l').trans h, ?_⟩
  obtain ⟨rest, hrest⟩ := h
  rw [← drop_drop, ← hrest, append_assoc, drop_left]
  exact prefix_append l' rest

theorem storedHash_ahead {tree : CPartialMerkleTree} {x : Extraction}
    {hash : UInt256} {fParentOfMatch : Bool} (h : [hash] <+: tree.vHash.drop x.nHashUsed) :
    storedHash tree height pos fParentOfMatch x =
      (hash, { x with
        nHashUsed := x.nHashUsed + 1
        vMatch := x.vMatch ++ if height == 0 && fParentOfMatch then [hash] else []
        vnIndex := x.vnIndex ++ if height == 0 && fParentOfMatch then [pos] else [] }) := by
  unfold storedHash
  rw [(getElem?_of_cons_prefix_drop h).1]
  dsimp only
  split
  · rfl
  · simp only [append_nil]

variable {tree : CPartialMerkleTree}

/-- The node's hash, and the chosen leaves below it. -/
theorem traverseAndExtract_build (hn : tree.nTransactions = vTxid.length)
    (hne : ∀ height pos, pos * 2 + 1 < width vTxid.length height →
      E.calcHash vTxid.length vTxid height (pos * 2) ≠
        E.calcHash vTxid.length vTxid height (pos * 2 + 1)) (height : Nat) :
    ∀ {pos : Nat} {x : Extraction}, pos < width vTxid.length height →
      Ahead tree x (E.traverseAndBuild vTxid.length vTxid vMatch height pos) →
      E.traverseAndExtract tree height pos x =
        (E.calcHash vTxid.length vTxid height pos,
          afterNode x (E.traverseAndBuild vTxid.length vTxid vMatch height pos)
            (matchesBelow vTxid.length vMatch height pos) vTxid) := by
  induction height with
  | zero =>
    intro pos x hpos hahead
    rw [width_zero] at hpos
    obtain ⟨hbits, hhashes⟩ := hahead
    rw [traverseAndBuild] at hbits hhashes
    rw [traverseAndExtract, (getElem?_of_cons_prefix_drop hbits).1]
    dsimp only
    rw [storedHash_ahead (x := { x with nBitsUsed := x.nBitsUsed + 1 }) hhashes]
    simp only [traverseAndBuild, afterNode, parentOfMatch, matchesBelow, leavesBelow_zero hpos,
      calcHash, any_cons, any_nil, Bool.or_false, length_singleton,
      filter_cons, filter_nil]
    cases vMatch.getD pos false with
    | true => simp
    | false => simp
  | succ height ih =>
    intro pos x hpos hahead
    cases hparent : parentOfMatch vTxid.length vMatch (height + 1) pos with
    | false =>
      rw [matchesBelow_of_not hparent]
      rw [traverseAndBuild_of_not hparent] at hahead ⊢
      rw [traverseAndExtract, (getElem?_of_cons_prefix_drop hahead.bits).1]
      dsimp only
      rw [storedHash_ahead (x := { x with nBitsUsed := x.nBitsUsed + 1 }) hahead.hashes]
      simp [afterNode]
    | true =>
      rw [matchesBelow_succ]
      rw [traverseAndBuild_of_parent hparent] at hahead ⊢
      dsimp only at hahead ⊢
      obtain ⟨hbit, hbits⟩ := getElem?_of_cons_prefix_drop hahead.bits
      obtain ⟨hbits₁, hbits₂⟩ := append_prefix_drop hbits
      obtain ⟨hhashes₁, hhashes₂⟩ := append_prefix_drop hahead.hashes
      have hleft := ih (x := { x with nBitsUsed := x.nBitsUsed + 1 }) (left_lt hpos)
        ⟨hbits₁, hhashes₁⟩
      rw [traverseAndExtract, hbit]
      simp only [hleft, hn, calcHash]
      by_cases hright : pos * 2 + 1 < width vTxid.length height
      · rw [if_pos hright] at hbits₂ hhashes₂
        rw [if_pos hright, if_pos hright, if_pos hright, ih hright ⟨hbits₂, hhashes₂⟩]
        dsimp only
        rw [if_neg (hne height pos hright).symm]
        simp [afterNode]
        omega
      · -- the last node of an odd row has no sibling
        rw [if_neg hright, if_neg hright, if_neg hright, matchesBelow, matchesBelow,
          leavesBelow_eq_nil (not_lt.mp hright)]
        simp [afterNode]
        omega

/-! ### The whole tree -/

/-- What is asked of a tree before it is read; bits may be padded. -/
structure BuiltTree (E : NodeEnv) (vTxid : List UInt256) (vMatch : List Bool)
    (tree : CPartialMerkleTree) : Prop where
  nTransactions : tree.nTransactions = vTxid.length
  fBad : tree.fBad = false
  vHash : tree.vHash = (E.traverseAndBuild vTxid.length vTxid vMatch (treeHeight vTxid.length) 0).2
  vBits : (E.traverseAndBuild vTxid.length vTxid vMatch (treeHeight vTxid.length) 0).1 <+: tree.vBits
  padding : (tree.vBits.length + 7) / 8 =
    ((E.traverseAndBuild vTxid.length vTxid vMatch (treeHeight vTxid.length) 0).1.length + 7) / 8

/-- The Merkle root and the chosen ids. -/
theorem extractMatches_built (h : BuiltTree E vTxid vMatch tree) (hne : vTxid ≠ [])
    (hcount : vTxid.length ≤ MAX_BLOCK_WEIGHT / MIN_TRANSACTION_WEIGHT)
    (hlone : ∀ k < treeHeight vTxid.length, NoTwins (row E.merkleParent vTxid k)) :
    E.extractMatches tree = ((E.computeMerkleRoot vTxid).1,
      ((List.range vTxid.length).filter fun p => vMatch.getD p false).map (fun p => vTxid.getD p 0),
      (List.range vTxid.length).filter fun p => vMatch.getD p false) := by
  obtain ⟨hone, -⟩ := width_treeHeight vTxid.length
  have hpositive := length_pos_iff.mpr hne
  have hroot : 0 < width vTxid.length (treeHeight vTxid.length) := by
    rw [width_eq_one hpositive hone]
    omega
  obtain ⟨hhashes, hbits, -⟩ := @length_traverseAndBuild E vTxid vMatch vTxid.length
    (treeHeight vTxid.length) 0 hroot
  rw [leavesBelow_root hone, length_range] at hhashes
  have hprefix := h.vBits.length_le
  have hread := @traverseAndExtract_build E vTxid vMatch tree h.nTransactions
    (fun _ _ hpos => siblings_ne hlone hpos) (treeHeight vTxid.length) 0
    { fBad := tree.fBad } hroot ⟨by simpa using h.vBits, by simp [h.vHash]⟩
  unfold extractMatches
  rw [h.nTransactions, if_neg (by omega), if_neg (by omega), if_neg (by rw [h.vHash]; omega),
    if_neg (by rw [h.vHash]; omega), hread]
  simp only [afterNode, h.fBad, h.padding, h.vHash, matchesBelow, leavesBelow_root hone,
    computeMerkleRoot_eq hne]
  simp

end NodeEnv

end VBitcoin
