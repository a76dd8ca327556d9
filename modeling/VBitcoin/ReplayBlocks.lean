import VBitcoin.DisconnectSpec

/-!
**Recovery after an interrupted flush** — `ReplayBlocks` and `RollforwardBlock`
(`validation.cpp`), `LastCommonAncestor` (`chain.cpp`).  The old branch is taken back and the
new one applied from the height above the fork on, which is 1 without an old tip.  A pointer to
an index entry is the list of the entry and its ancestors.
-/

namespace VBitcoin

open WriteLog List

/-- A block and its undo data may not be readable. -/
structure BlockStore where
  m_block_index : UInt256 → Option CBlockIndex
  block : CBlockIndex → CBlock
  readable : CBlockIndex → Bool
  undo : CBlockIndex → Bytes
  undoReadable : CBlockIndex → Bool

namespace BlockStore

variable (S : BlockStore)

def readBlockFromDisk (pindex : CBlockIndex) : Option CBlock :=
  if S.readable pindex then some (S.block pindex) else none

def undoFile (pindex : CBlockIndex) : Option Bytes :=
  if S.undoReadable pindex then some (S.undo pindex) else none

end BlockStore

namespace CBlockIndex

def chainOf : Option CBlockIndex → List IndexEntry
  | none => []
  | some pindex => pindex.entry :: pindex.ancestors

def ofChain : List IndexEntry → Option CBlockIndex
  | [] => none
  | entry :: ancestors => some ⟨entry, ancestors⟩

def walkBack : List IndexEntry → List IndexEntry → List IndexEntry × List IndexEntry
  | a :: pa, b :: pb => if a :: pa = b :: pb then (a :: pa, b :: pb) else walkBack pa pb
  | pa, pb => (pa, pb)

def lastCommonAncestor (pa pb : CBlockIndex) : Run (Option CBlockIndex) :=
  let pa' := if pb.nHeight < pa.nHeight then pa.getAncestor pb.nHeight else some pa
  let pb' := if pa.nHeight < pb.nHeight then pb.getAncestor pa.nHeight else some pb
  match walkBack (chainOf pa') (chainOf pb') with
  | (pa, pb) => do
    require (pa == pb) (.assertion "pa == pb")
    pure (ofChain pa)

end CBlockIndex

namespace NodeEnv

variable (E : NodeEnv) (S : BlockStore)

/-- Every addition may be an overwrite. -/
def rollforwardTransaction (nHeight : Nat) (inputs : CCoinsViewCache) (tx : CTransaction) :
    Run CCoinsViewCache :=
  E.addCoins
    (if tx.isCoinBase then inputs
      else tx.vin.foldl (fun inputs txin => (inputs.spendCoin txin.prevout).2) inputs)
    tx nHeight true

/-- `RollforwardBlock`: nothing where it returns false. -/
def rollforwardBlock (pindex : CBlockIndex) (inputs : CCoinsViewCache) :
    Run (Option CCoinsViewCache) :=
  match S.readBlockFromDisk pindex with
  | none => pure none
  | some block => do
    let inputs ← block.vtx.foldlM (E.rollforwardTransaction pindex.nHeight) inputs
    pure (some inputs)

/-- Before a chain is active; nothing where it fails. -/
def rollbackBlock (pindexOld : CBlockIndex) (cache : CCoinsViewCache) :
    Run (Option CCoinsViewCache) :=
  match S.readBlockFromDisk pindexOld with
  | none => pure none
  | some block => do
    let (res, cache) ← E.disconnectBlock block pindexOld (S.undoFile pindexOld) cache none
    pure (if res = .DISCONNECT_FAILED then none else some cache)

def rollback (pindexFork : Option CBlockIndex) : List IndexEntry → CCoinsViewCache →
    Run (Option CCoinsViewCache)
  | [], cache =>
    if pindexFork = none then pure (some cache) else .error (.undefined "pindexOld->nHeight")
  | entry :: ancestors, cache =>
    if some ⟨entry, ancestors⟩ = pindexFork then pure (some cache)
    else if 0 < ancestors.length then do
      match ← E.rollbackBlock S ⟨entry, ancestors⟩ cache with
      | none => pure none
      | some cache => rollback pindexFork ancestors cache
    -- never disconnect the genesis block
    else rollback pindexFork ancestors cache

def rollforward (pindexNew : CBlockIndex) : List Nat → CCoinsViewCache →
    Run (Option CCoinsViewCache)
  | [], cache => pure (some cache)
  | nHeight :: rest, cache =>
    match pindexNew.getAncestor nHeight with
    | none => .error (.undefined "pindex->GetBlockHash()")
    | some pindex => do
      match ← E.rollforwardBlock S pindex cache with
      | none => pure none
      | some cache => rollforward pindexNew rest cache

/-- `ReplayBlocks` once the tips and the fork are known. -/
def replayFrom (db : CCoinsViewDB) (pindexOld pindexFork : Option CBlockIndex)
    (pindexNew : CBlockIndex) : Run (Bool × CCoinsView) := do
  match ← E.rollback S pindexFork (CBlockIndex.chainOf pindexOld) { base := .db db } with
  | none => pure (false, .db db)
  | some cache =>
    let nForkHeight := (pindexFork.map CBlockIndex.nHeight).getD 0
    match ← E.rollforward S pindexNew
        (List.range' (nForkHeight + 1) (pindexNew.nHeight - nForkHeight)) cache with
    | none => pure (false, .db db)
    | some cache => do
      let cache ← (cache.setBestBlock pindexNew.getBlockHash).flush
      pure (true, cache.base)

def replayBlocks (db : CCoinsViewDB) : Run (Bool × CCoinsView) :=
  match db.headBlocks with
  | [] => pure (true, .db db)
  | [hashNew, hashOld] =>
    match S.m_block_index hashNew with
    | none => pure (false, .db db)
    | some pindexNew =>
      -- the old tip is allowed to be 0, indicating it's the first flush
      if hashOld.isNull then E.replayFrom S db none none pindexNew
      else
        match S.m_block_index hashOld with
        | none => pure (false, .db db)
        | some pindexOld => do
          let pindexFork ← CBlockIndex.lastCommonAncestor pindexOld pindexNew
          require pindexFork.isSome (.assertion "pindexFork != nullptr")
          E.replayFrom S db (some pindexOld) pindexFork pindexNew
  | _ => pure (false, .db db)

end NodeEnv

/-! ### Rolling forward -/

theorem addCoinsFrom_checked (txid : UInt256) (fCoinbase : Bool) (nHeight : Nat) :
    ∀ {vout : List CTxOut} {n : Nat} {c : CCoinsViewCache}, c.Ok →
      (∀ txout ∈ vout, txout.isNull = false) →
        ∃ c', addCoinsFrom txid fCoinbase nHeight true n vout c = .ok c'
  | [], _, c, _, _ => ⟨c, rfl⟩
  | txout :: rest, n, c, hok, hvout => by
      obtain ⟨hhave, hread⟩ := haveCoin_spec hok ⟨txid, n⟩
      rw [addCoinsFrom, if_pos rfl]
      generalize c.haveCoin ⟨txid, n⟩ = asked at hhave hread ⊢
      obtain ⟨overwrite, c₁⟩ := asked
      have hunspent : (⟨txout, nHeight, fCoinbase⟩ : Coin).isSpent = false :=
        hvout txout mem_cons_self
      obtain ⟨c₂, hadd, hkeeps, -⟩ := addCoin_spec hread.ok hunspent
        fun hoverwrite _ => hread.utxo ▸ absent_of_not_found hhave hoverwrite
      obtain ⟨c', hrest⟩ := addCoinsFrom_checked txid fCoinbase nHeight (n := n + 1) hkeeps.ok
        (forall_mem_cons.mp hvout).2
      refine ⟨c', ?_⟩
      simp only
      rw [hadd, ok_bind]
      exact hrest

theorem spendAll_spec : ∀ (vin : List CTxIn) {c : CCoinsViewCache}, c.Ok →
    Keeps c (vin.foldl (fun c txin => (c.spendCoin txin.prevout).2) c) ∧
      (vin.foldl (fun c txin => (c.spendCoin txin.prevout).2) c).utxo =
        replay c.utxo (removes (vin.map CTxIn.prevout))
  | [], c, hok => ⟨Keeps.refl hok, rfl⟩
  | txin :: rest, c, hok => by
      obtain ⟨-, -, hkeeps, hutxo⟩ := spendCoin_spec hok txin.prevout
      obtain ⟨hkeeps', hutxo'⟩ := spendAll_spec rest hkeeps.ok
      refine ⟨hkeeps.trans hkeeps', ?_⟩
      rw [foldl_cons, hutxo', hutxo]
      rfl

namespace NodeEnv

variable (E : NodeEnv) (S : BlockStore)

variable {c : CCoinsViewCache} {tip : CBlock} {rest : List CBlock}

theorem rollforwardTransaction_spec (nHeight : Nat) {tx : CTransaction}
    (hok : c.Ok) (hvout : ∀ txout ∈ tx.vout, txout.isNull = false) :
    ∃ c', E.rollforwardTransaction nHeight c tx = .ok c' ∧ Keeps c c' ∧
      c'.utxo = replay c.utxo (E.txLog nHeight tx) := by
  -- what the spends leave
  have hspend : ∃ c₁, (if tx.isCoinBase then c
        else tx.vin.foldl (fun c txin => (c.spendCoin txin.prevout).2) c) = c₁ ∧
      Keeps c c₁ ∧ c₁.utxo = replay c.utxo (removes tx.spent) := by
    refine ⟨_, rfl, ?_⟩
    cases hcoinbase : tx.isCoinBase with
    | true =>
      rw [CTransaction.spent_of_isCoinBase hcoinbase]
      exact ⟨Keeps.refl hok, rfl⟩
    | false =>
      rw [CTransaction.spent_of_not_isCoinBase hcoinbase]
      exact spendAll_spec tx.vin hok
  obtain ⟨c₁, hspend, hkeeps, hutxo⟩ := hspend
  rw [rollforwardTransaction, hspend, addCoins]
  obtain ⟨c', hadd⟩ := addCoinsFrom_checked (E.txid tx) tx.isCoinBase nHeight (n := 0)
    hkeeps.ok hvout
  obtain ⟨hkeeps', hutxo', -⟩ := addCoinsFrom_spec hkeeps.ok (fun h => by cases h) hadd
  refine ⟨c', hadd, hkeeps.trans hkeeps', ?_⟩
  rw [hutxo', hutxo, txLog, replay_append]
  rfl

theorem rollforwardTransactions_spec (nHeight : Nat) : ∀ {vtx : List CTransaction}
    {c : CCoinsViewCache}, c.Ok → (∀ tx ∈ vtx, ∀ txout ∈ tx.vout, txout.isNull = false) →
      ∃ c', vtx.foldlM (E.rollforwardTransaction nHeight) c = .ok c' ∧ Keeps c c' ∧
        c'.utxo = replay c.utxo (vtx.flatMap (E.txLog nHeight))
  | [], c, hok, _ => ⟨c, rfl, Keeps.refl hok, rfl⟩
  | tx :: rest, c, hok, hvtx => by
      obtain ⟨c₁, hrun, hkeeps, hutxo⟩ :=
        E.rollforwardTransaction_spec nHeight hok (hvtx tx mem_cons_self)
      obtain ⟨c', hrest, hkeeps', hutxo'⟩ := rollforwardTransactions_spec nHeight hkeeps.ok
        (forall_mem_cons.mp hvtx).2
      refine ⟨c', ?_, hkeeps.trans hkeeps', ?_⟩
      · rw [foldlM_cons, hrun, ok_bind, hrest]
      · rw [hutxo', hutxo, flatMap_cons, replay_append]

/-! ### Branches -/

/-- The log that leads from a chain to a branch on it. -/
def branchLog (fork : List CBlock) : List CBlock → Log COutPoint Coin
  | [] => []
  | block :: branch => branchLog fork branch ++ E.blockLog (branch ++ fork).length block

theorem utxoOf_append (fork : List CBlock) : ∀ branch : List CBlock,
    E.utxoOf (branch ++ fork) = replay (E.utxoOf fork) (E.branchLog fork branch)
  | [] => rfl
  | block :: branch => by
      rw [cons_append, utxoOf, utxoOf_append fork branch, branchLog, replay_append]

theorem branchLog_concat (fork : List CBlock) (block : CBlock) : ∀ branch : List CBlock,
    E.branchLog fork (branch ++ [block]) =
      E.blockLog fork.length block ++ E.branchLog (block :: fork) branch
  | [] => by simp [branchLog]
  | b :: branch => by
      rw [cons_append, branchLog, branchLog_concat fork block branch, branchLog,
        append_assoc, append_assoc, singleton_append]

def branchReadable (fork : List CBlock) : List CBlock → Bool
  | [] => true
  | block :: branch =>
    branchReadable fork branch && S.readable (E.blockIndex block (branch ++ fork))

theorem branchReadable_concat (fork : List CBlock) (block : CBlock) : ∀ branch : List CBlock,
    E.branchReadable S fork (branch ++ [block]) =
      (S.readable (E.blockIndex block fork) && E.branchReadable S (block :: fork) branch)
  | [] => by simp [branchReadable]
  | b :: branch => by
      rw [cons_append, branchReadable, branchReadable_concat fork block branch,
        branchReadable, Bool.and_assoc, append_assoc, singleton_append]

variable {block : CBlock} {chain : List CBlock}

theorem getAncestor_blockIndex {branch fork : List CBlock}
    (h : tip :: chain = branch ++ block :: fork) :
    (E.blockIndex tip chain).getAncestor fork.length = some (E.blockIndex block fork) := by
  have hlength := congrArg List.length h
  simp only [length_cons, length_append] at hlength
  have hentries : (E.blockIndex tip chain).entry :: (E.blockIndex tip chain).ancestors =
      (tip :: chain).map fun b => E.indexEntry b.header := rfl
  have hdrop : (tip :: chain).drop (chain.length - fork.length) = block :: fork := by
    rw [h, show chain.length - fork.length = branch.length by omega, drop_left]
  unfold CBlockIndex.getAncestor
  rw [blockIndex_nHeight, if_neg (by omega), hentries, ← map_drop, hdrop]
  rfl

/-- The second loop applies the log of the branch, if its blocks can be read. -/
theorem rollforward_spec (hblock : ∀ block rest, block :: rest <:+ tip :: chain →
      S.block (E.blockIndex block rest) = block)
    (hvout : ∀ block ∈ tip :: chain, ∀ tx ∈ block.vtx, ∀ txout ∈ tx.vout, txout.isNull = false)
    (branch : List CBlock) : ∀ {fork : List CBlock} {c : CCoinsViewCache}, c.Ok →
      tip :: chain = branch ++ fork →
      (E.branchReadable S fork branch = false → E.rollforward S (E.blockIndex tip chain)
        (List.range' fork.length branch.length) c = .ok none) ∧
      (E.branchReadable S fork branch = true → ∃ c', E.rollforward S (E.blockIndex tip chain)
          (List.range' fork.length branch.length) c = .ok (some c') ∧ Keeps c c' ∧
        c'.utxo = replay c.utxo (E.branchLog fork branch)) := by
  -- the lowest block of the branch comes first
  induction branch using List.reverseRecOn with
  | nil =>
    intro fork c hok _
    exact ⟨fun h => (by cases h), fun _ => ⟨c, rfl, Keeps.refl hok, rfl⟩⟩
  | append_singleton branch block ih =>
    intro fork c hok hchain
    rw [append_assoc, singleton_append] at hchain
    have hsuffix : block :: fork <:+ tip :: chain := ⟨branch, hchain.symm⟩
    rw [branchReadable_concat, length_append, length_singleton, range'_succ,
      rollforward, E.getAncestor_blockIndex hchain]
    simp only [rollforwardBlock, BlockStore.readBlockFromDisk, hblock block fork hsuffix]
    cases hread : S.readable (E.blockIndex block fork) with
    | false =>
      rw [Bool.false_and]
      exact ⟨fun _ => rfl, fun h => (by cases h)⟩
    | true =>
      obtain ⟨c₁, hrun, hkeeps, hutxo⟩ := E.rollforwardTransactions_spec fork.length hok
        (hvout block (hsuffix.subset mem_cons_self))
      obtain ⟨hfails, hworks⟩ := ih hkeeps.ok hchain
      rw [Bool.true_and, blockIndex_nHeight, if_pos rfl]
      simp only [hrun, ok_bind]
      constructor
      · exact hfails
      · intro hreadable
        obtain ⟨c', hrest, hkeeps', hutxo'⟩ := hworks hreadable
        refine ⟨c', hrest, hkeeps.trans hkeeps', ?_⟩
        rw [hutxo', hutxo, branchLog_concat, replay_append]
        rfl

/-! ### The store of a chain -/

/-- The chain's blocks by their hashes, and their undo data. -/
structure Holds (chain : List CBlock) : Prop where
  index : ∀ block rest, block :: rest <:+ chain →
    S.m_block_index (E.blockHash block.header) = some (E.blockIndex block rest)
  block : ∀ block rest, block :: rest <:+ chain → S.block (E.blockIndex block rest) = block
  undo : ∀ block rest, block :: rest <:+ chain → rest ≠ [] →
    ∃ view after vtxundo, E.ConnectsTo rest view ∧ E.checkBlockRules block true = .ok () ∧
      E.connectBlock block (E.blockIndex block rest) view (E.tipIndex rest) false =
        .ok (after, vtxundo) ∧
      S.undo (E.blockIndex block rest) = E.undoWriteToDisk vtxundo (E.tipHash rest)

def entriesOf (chain : List CBlock) : List IndexEntry := chain.map fun b => E.indexEntry b.header

variable {S} in
theorem Holds.eq_of_entries {a b : List CBlock} (ha : E.Holds S a) (hb : E.Holds S b) :
    ∀ {a' b' : List CBlock}, a' <:+ a → b' <:+ b → E.entriesOf a' = E.entriesOf b' → a' = b'
  | [], [], _, _, _ => rfl
  | x :: a', y :: b', hsa, hsb, h => by
      have hindex : E.blockIndex x a' = E.blockIndex y b' := by
        simp only [entriesOf, map_cons, List.cons.injEq] at h
        simp only [blockIndex, h.1, h.2]
      have hblock : x = y := by
        rw [← ha.block x a' hsa, ← hb.block y b' hsb, hindex]
      rw [hblock, Holds.eq_of_entries ha hb ((suffix_cons x a').trans hsa)
        ((suffix_cons y b').trans hsb) (List.cons.inj h).2]

theorem chainOf_getAncestor {pindex : CBlockIndex} {height : Nat} (h : height ≤ pindex.nHeight) :
    CBlockIndex.chainOf (pindex.getAncestor height) =
      (pindex.entry :: pindex.ancestors).drop (pindex.nHeight - height) := by
  unfold CBlockIndex.getAncestor
  rw [if_neg (Nat.not_lt.mpr h)]
  split
  · rename_i hdrop
    exact hdrop.symm
  · rename_i entry ancestors hdrop
    exact hdrop.symm

theorem chainOf_level (tip : CBlock) (chain : List CBlock) (height : Nat) :
    CBlockIndex.chainOf (if height < chain.length then
        (E.blockIndex tip chain).getAncestor height else some (E.blockIndex tip chain)) =
      E.entriesOf ((tip :: chain).drop (chain.length - height)) := by
  split
  · rename_i h
    rw [chainOf_getAncestor (by rw [blockIndex_nHeight]; omega), entriesOf, map_drop,
      blockIndex_nHeight]
    rfl
  · rename_i h
    rw [Nat.sub_eq_zero_of_le (Nat.le_of_not_lt h)]
    rfl

theorem walkBack_spec : ∀ {a b : List CBlock}, a.length = b.length → a ≠ [] →
    a.getLast? = b.getLast? →
    (∀ a' b', a' <:+ a → b' <:+ b → E.entriesOf a' = E.entriesOf b' → a' = b') →
    ∃ fork, fork ≠ [] ∧ fork <:+ a ∧ fork <:+ b ∧
      CBlockIndex.walkBack (E.entriesOf a) (E.entriesOf b) = (E.entriesOf fork, E.entriesOf fork)
  | x :: a, y :: b, hlength, _, hlast, hsame => by
      by_cases heq : E.entriesOf (x :: a) = E.entriesOf (y :: b)
      · have hxy := hsame _ _ (suffix_refl _) (suffix_refl _) heq
        refine ⟨x :: a, cons_ne_nil _ _, suffix_refl _, hxy ▸ suffix_refl _, ?_⟩
        rw [← hxy]
        exact if_pos rfl
      · have hlength' : a.length = b.length := Nat.succ.inj hlength
        have hne : a ≠ [] := by
          rintro rfl
          rw [length_nil, eq_comm, length_eq_zero_iff] at hlength'
          subst hlength'
          rw [getLast?_singleton, getLast?_singleton, Option.some.injEq] at hlast
          exact heq (hlast ▸ rfl)
        have hne' : b ≠ [] := fun h => hne (length_eq_zero_iff.mp (by rw [hlength', h]; rfl))
        rw [getLast?_cons, getLast?_cons] at hlast
        obtain ⟨u, a, rfl⟩ := exists_cons_of_ne_nil hne
        obtain ⟨v, b, rfl⟩ := exists_cons_of_ne_nil hne'
        obtain ⟨fork, hfork, hsa, hsb, hwalk⟩ := walkBack_spec hlength' hne
          (by simpa [getLast?_cons] using hlast)
          fun a' b' ha' hb' => hsame a' b' (ha'.trans (suffix_cons _ _))
            (hb'.trans (suffix_cons _ _))
        refine ⟨fork, hfork, hsa.trans (suffix_cons _ _), hsb.trans (suffix_cons _ _), ?_⟩
        rw [← hwalk]
        exact if_neg heq

variable {S} in
/-- Of two tips over one genesis, the tip of a chain below both. -/
theorem lastCommonAncestor_spec {o n : CBlock} {old new : List CBlock}
    (hold : E.Holds S (o :: old)) (hnew : E.Holds S (n :: new))
    (hroot : (o :: old).getLast? = (n :: new).getLast?) :
    ∃ fork, fork ≠ [] ∧ fork <:+ o :: old ∧ fork <:+ n :: new ∧
      CBlockIndex.lastCommonAncestor (E.blockIndex o old) (E.blockIndex n new) =
        .ok (E.tipIndex fork) := by
  have hsuffixO := drop_suffix (old.length - new.length) (o :: old)
  have hsuffixN := drop_suffix (new.length - old.length) (n :: new)
  obtain ⟨fork, hne, hforkO, hforkN, hwalk⟩ := E.walkBack_spec
    (a := (o :: old).drop (old.length - new.length))
    (b := (n :: new).drop (new.length - old.length))
    (by simp only [length_drop, length_cons]; omega)
    (by rw [ne_eq, drop_eq_nil_iff, length_cons]; omega)
    (by
      rw [getLast?_drop, getLast?_drop, length_cons, length_cons,
        if_neg (by omega), if_neg (by omega), hroot])
    fun a' b' ha' hb' => hold.eq_of_entries E hnew (ha'.trans hsuffixO) (hb'.trans hsuffixN)
  refine ⟨fork, hne, hforkO.trans hsuffixO, hforkN.trans hsuffixN, ?_⟩
  obtain ⟨tip, rest, rfl⟩ := exists_cons_of_ne_nil hne
  simp only [CBlockIndex.lastCommonAncestor, chainOf_level, blockIndex_nHeight, hwalk,
    beq_self_eq_true, require_true, ok_bind]
  rfl

/-! ### Rolling back -/

/-- The first loop of `ReplayBlocks` on the ledger, from a chain down to `fork`. -/
inductive RollsBack (fork : List CBlock) : List CBlock → Utxo → Utxo → Prop
  | here (coins : Utxo) : RollsBack fork fork coins coins
  | step {block : CBlock} {chain : List CBlock} {vtxundo : CBlockUndo} {fees : Int}
      {coins mid coins' : Utxo} {clean : Bool} :
      E.LedgerChain chain → E.ConnectsOn chain block vtxundo fees → chain ≠ [] →
      undoRun (coins, true) (E.blockUndoOps chain.length block.vtx ([] :: vtxundo)) =
        some (mid, clean) →
      RollsBack fork chain mid coins' → RollsBack fork (block :: chain) coins coins'

variable {S} in
theorem Holds.connectsOn (hstore : E.Holds S chain) (hhashes : E.ChainHashes chain)
    (hsuffix : block :: rest <:+ chain) (hne : rest ≠ []) :
    ∃ vtxundo fees, E.LedgerChain rest ∧ E.ConnectsOn rest block vtxundo fees ∧
      S.undo (E.blockIndex block rest) = E.undoWriteToDisk vtxundo (E.tipHash rest) := by
  obtain ⟨view, after, vtxundo, hview, hcheck, hconnect, hundo⟩ :=
    hstore.undo block rest hsuffix hne
  have hhashes' := hhashes.of_suffix E hsuffix
  obtain ⟨hledger, hstands⟩ := hview.ledger E hhashes'.tail
  obtain ⟨fees, hon, -⟩ := E.connectBlock_on hview hstands hhashes' hcheck hconnect
  exact ⟨vtxundo, fees, hledger, hon, hundo⟩

variable {S} in
theorem rollbackBlock_spec (hstore : E.Holds S chain)
    (hhashes : E.ChainHashes chain) (hheight : chain.length < 2 ^ 31) (hsecp : E.secp.Inverts)
    (hsuffix : block :: rest <:+ chain) (hne : rest ≠ []) (hok : c.Ok) :
    E.rollbackBlock S (E.blockIndex block rest) c = .ok none ∨
      ∃ c', E.rollbackBlock S (E.blockIndex block rest) c = .ok (some c') ∧ c'.Ok ∧ Extends c c' ∧
        ∀ {fork : List CBlock} {coins : Utxo}, E.RollsBack fork rest c'.utxo coins →
          E.RollsBack fork (block :: rest) c.utxo coins := by
  obtain ⟨vtxundo, fees, hledger, hon, hundo⟩ := hstore.connectsOn E hhashes hsuffix hne
  unfold rollbackBlock BlockStore.readBlockFromDisk BlockStore.undoFile
  rw [hstore.block block rest hsuffix, hundo]
  cases S.readable (E.blockIndex block rest) with
  | false => exact Or.inl rfl
  | true =>
    cases S.undoReadable (E.blockIndex block rest) with
    | false => exact Or.inl rfl
    | true =>
      have hlength := hsuffix.length_le
      rw [length_cons] at hlength
      obtain ⟨res, c', hrun, hres⟩ := E.disconnectBlock_spec hon hledger hne (by omega) hsecp hok
        (fun h : E.isCrossedBootstrapBlock none = true => by cases h)
      simp only [if_true, hrun, ok_bind]
      cases hundone : undoRun (c.utxo, true)
        (E.blockUndoOps rest.length block.vtx ([] :: vtxundo)) with
      | none =>
        rw [hundone] at hres
        have hfailed : res = .DISCONNECT_FAILED := hres
        exact Or.inl (by rw [if_pos hfailed]; rfl)
      | some s =>
        rw [hundone] at hres
        obtain ⟨hresult, hok', hutxo, -, hgrows⟩ := hres
        have hgoes : ¬ res = .DISCONNECT_FAILED := hresult ▸ resultOf_ne_failed s.2
        refine Or.inr ⟨c', by rw [if_neg hgoes]; rfl, hok', hgrows, fun hrolls => ?_⟩
        exact .step hledger hon hne hundone (hutxo ▸ hrolls)

variable {S} in
/-- **The first loop of `ReplayBlocks`** fails or rolls the coins back. -/
theorem rollback_spec {chain fork : List CBlock} (hstore : E.Holds S chain)
    (hhashes : E.ChainHashes chain) (hheight : chain.length < 2 ^ 31) (hsecp : E.secp.Inverts)
    (hfork : fork ≠ []) : ∀ (branch : List CBlock) {c : CCoinsViewCache}, c.Ok →
      branch ++ fork <:+ chain →
      E.rollback S (E.tipIndex fork) (E.entriesOf (branch ++ fork)) c = .ok none ∨
        ∃ c', E.rollback S (E.tipIndex fork) (E.entriesOf (branch ++ fork)) c = .ok (some c') ∧
          c'.Ok ∧ Extends c c' ∧ E.RollsBack fork (branch ++ fork) c.utxo c'.utxo
  | [], c, hok, _ => by
      obtain ⟨tip, rest, rfl⟩ := exists_cons_of_ne_nil hfork
      exact Or.inr ⟨c, if_pos rfl, hok, Extends.refl c, .here _⟩
  | block :: branch, c, hok, hsuffix => by
      rw [cons_append] at hsuffix
      have hne : branch ++ fork ≠ [] := fun h => hfork (append_eq_nil_iff.mp h).2
      have hpos : 0 < (E.entriesOf (branch ++ fork)).length := by
        rw [entriesOf, length_map]
        exact length_pos_iff.mpr hne
      -- the block stands above the fork
      have habove : some (E.blockIndex block (branch ++ fork)) ≠ E.tipIndex fork := by
        obtain ⟨tip, rest, rfl⟩ := exists_cons_of_ne_nil hfork
        intro h
        have hheights := congrArg CBlockIndex.nHeight (Option.some.inj h)
        simp only [blockIndex_nHeight, length_append, length_cons] at hheights
        omega
      have hstep : E.rollback S (E.tipIndex fork) (E.entriesOf (block :: branch ++ fork)) c =
          (E.rollbackBlock S (E.blockIndex block (branch ++ fork)) c >>= fun
            | none => pure none
            | some c => E.rollback S (E.tipIndex fork) (E.entriesOf (branch ++ fork)) c) :=
        (if_neg habove).trans (if_pos hpos)
      rw [hstep]
      rcases E.rollbackBlock_spec hstore hhashes hheight hsecp hsuffix hne hok with
        hfails | ⟨c₁, hrun, hok₁, hgrows, hfirst⟩
      · exact Or.inl (by rw [hfails]; rfl)
      · rw [hrun, ok_bind]
        rcases rollback_spec hstore hhashes hheight hsecp hfork branch hok₁
          ((suffix_cons _ _).trans hsuffix) with hfails | ⟨c', hrest, hok', hgrows', hrolls⟩
        · exact Or.inl hfails
        · exact Or.inr ⟨c', hrest, hok', hgrows.trans hgrows', hfirst hrolls⟩

end NodeEnv

end VBitcoin
