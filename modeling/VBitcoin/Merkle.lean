import VBitcoin.Environment

/-!
**Merkle roots** — `consensus/merkle.cpp`, and the top-level root of
`vbk/merkle.cpp`, which also commits to a block's PoP data once PoP is active.
-/

namespace VBitcoin.NodeEnv

variable (E : NodeEnv)

def merkleParent (left right : UInt256) : UInt256 :=
  E.hash256 (serializeUInt256 left ++ serializeUInt256 right)

/-- One round of the loop: an odd last node is paired with itself. -/
def merkleLevel : List UInt256 → List UInt256
  | left :: right :: rest => E.merkleParent left right :: merkleLevel rest
  | [last] => [E.merkleParent last last]
  | [] => []

/-- Two equal neighbours that are about to be hashed together. -/
def hasEqualPair : List UInt256 → Bool
  | left :: right :: rest => left == right || hasEqualPair rest
  | _ => false

/-- The loop of `ComputeMerkleRoot`, with the mutation seen so far. -/
def merkleLoop : Nat → List UInt256 → Bool → UInt256 × Bool
  | 0, hashes, mutation => (hashes.headD 0, mutation)
  | fuel + 1, hashes, mutation =>
    if hashes.length ≤ 1 then (hashes.headD 0, mutation)
    else merkleLoop fuel (E.merkleLevel hashes) (mutation || hasEqualPair hashes)

/-- Root and `mutated`. Each level halves, rounded up: the length is enough fuel. -/
def computeMerkleRoot (hashes : List UInt256) : UInt256 × Bool :=
  E.merkleLoop hashes.length hashes false

theorem merkleLevel_length : ∀ hashes : List UInt256,
    (E.merkleLevel hashes).length = (hashes.length + 1) / 2
  | [] => rfl
  | [_] => by simp [merkleLevel]
  | _ :: _ :: rest => by
      simp only [merkleLevel, List.length_cons, merkleLevel_length rest]
      omega

theorem merkleLoop_congr : ∀ (n m : Nat) (hashes : List UInt256) (mutation : Bool),
    hashes.length ≤ n → hashes.length ≤ m →
      E.merkleLoop n hashes mutation = E.merkleLoop m hashes mutation
  | 0, m, hashes, mutation, hn, _ => by
      obtain rfl : hashes = [] := List.eq_nil_of_length_eq_zero (by omega)
      cases m <;> simp [merkleLoop]
  | n + 1, 0, hashes, mutation, _, hm => by
      obtain rfl : hashes = [] := List.eq_nil_of_length_eq_zero (by omega)
      simp [merkleLoop]
  | n + 1, m + 1, hashes, mutation, hn, hm => by
      unfold merkleLoop
      by_cases hsize : hashes.length ≤ 1
      · rw [if_pos hsize, if_pos hsize]
      · have hlevel := E.merkleLevel_length hashes
        rw [if_neg hsize, if_neg hsize]
        exact merkleLoop_congr n m _ _ (by omega) (by omega)

theorem merkleLoop_mutation (n : Nat) (hashes : List UInt256) (mutation : Bool) :
    E.merkleLoop n hashes mutation =
      ((E.merkleLoop n hashes false).1, mutation || (E.merkleLoop n hashes false).2) := by
  induction n generalizing hashes mutation with
  | zero => simp [merkleLoop]
  | succ n ih =>
    unfold merkleLoop
    by_cases hsize : hashes.length ≤ 1
    · simp [if_pos hsize]
    · rw [if_neg hsize, if_neg hsize, ih, ih _ (false || _), Bool.false_or, Bool.or_assoc]

theorem computeMerkleRoot_step (hashes : List UInt256) (hsize : 1 < hashes.length) :
    E.computeMerkleRoot hashes = ((E.computeMerkleRoot (E.merkleLevel hashes)).1,
      hasEqualPair hashes || (E.computeMerkleRoot (E.merkleLevel hashes)).2) := by
  obtain ⟨n, hn⟩ : ∃ n, hashes.length = n + 1 := ⟨hashes.length - 1, by omega⟩
  have hlevel := E.merkleLevel_length hashes
  rw [computeMerkleRoot, computeMerkleRoot, hn, merkleLoop, if_neg (by omega), merkleLoop_mutation,
    E.merkleLoop_congr n (E.merkleLevel hashes).length _ _ (by omega) (Nat.le_refl _), Bool.false_or]

variable (block : CBlock)

def blockMerkleRoot : UInt256 × Bool :=
  E.computeMerkleRoot (block.vtx.map E.txid)

def blockWitnessMerkleRoot : UInt256 :=
  (E.computeMerkleRoot (0 :: block.vtx.tail.map E.wtxid)).1

def topLevelMerkleRoot (prevIndex : Option CBlockIndex) (block : CBlock) : UInt256 × Bool :=
  let (txRoot, mutated) := E.blockMerkleRoot block
  if !E.isPopActive (heightAfter prevIndex) then (txRoot, mutated)
  else
    -- null when the previous block is behind the bootstrap block
    let prev := (prevIndex.map CBlockIndex.getBlockHash).filter E.pop.knowsBlock
    (E.pop.calculateTopLevelMerkleRoot txRoot block.popData prev, mutated)

variable (pprevIndex : Option CBlockIndex)

def verifyTopLevelMerkleRoot : Run Unit := do
  let (hashMerkleRoot2, mutated) := E.topLevelMerkleRoot pprevIndex block
  require (block.header.hashMerkleRoot == hashMerkleRoot2)
    (.blockInvalid .BLOCK_MUTATED "bad-txnmrklroot"
      ("hashMerkleRoot mismatch. expected " ++ hashMerkleRoot2.toHex ++ ", got " ++
        block.header.hashMerkleRoot.toHex))
  require (!mutated) (.blockInvalid .BLOCK_MUTATED "bad-txns-duplicate" "duplicate transaction")

/-- Its root is the header's, and it is not a repetition with the same root. -/
def bodyCommitted : Bool :=
  block.header.hashMerkleRoot == (E.topLevelMerkleRoot pprevIndex block).1 &&
    !(E.topLevelMerkleRoot pprevIndex block).2

theorem verifyTopLevelMerkleRoot_eq_ok {block : CBlock} {pprevIndex : Option CBlockIndex} :
    E.verifyTopLevelMerkleRoot block pprevIndex = .ok () ↔
      E.bodyCommitted block pprevIndex = true := by
  simp only [verifyTopLevelMerkleRoot, bind_eq_ok, require_eq_ok, exists_const, bodyCommitted,
    Bool.and_eq_true]

theorem verifyTopLevelMerkleRoot_stops :
    StopsWith (fun stop => ∃ reason debug, stop = .blockInvalid .BLOCK_MUTATED reason debug)
      (E.verifyTopLevelMerkleRoot block pprevIndex) :=
  stopsWith_require_bind ⟨_, _, rfl⟩ fun _ => stopsWith_require ⟨_, _, rfl⟩ _

end VBitcoin.NodeEnv
