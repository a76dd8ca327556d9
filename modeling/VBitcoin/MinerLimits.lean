import VBitcoin.Miner
import VBitcoin.Regtest

/-!
**The resource limits of a template** — the package selection counts against a fixed
reservation of 4000 weight units and 400 sigops for a coinbase it does not know yet.  What the
coinbase and the header take beyond it must fit into what the selection left free.
-/

namespace VBitcoin

open List

/-! ### The counters of the selection -/

/-- What the mempool promises; `coinsOf` are the coins that a transaction spends. -/
structure Package.Correct (coinsOf : CTransaction → List Coin) (flags : ScriptFlags)
    (nBytesPerSigOp : Nat) (package : Package) : Prop where
  weight : ∀ entry ∈ package.entries, entry.nTxWeight = getTransactionWeight entry.tx
  sigOps : ∀ entry ∈ package.entries,
    entry.sigOpCost = sigOpCostOf entry.tx (coinsOf entry.tx) flags
  notCoinBase : ∀ entry ∈ package.entries, entry.tx.isCoinBase = false
  packageSize : package.packageSize =
    (package.entries.map fun entry => entry.getTxSize nBytesPerSigOp).sum
  packageSigOpsCost : package.packageSigOpsCost =
    (package.entries.map CTxMemPoolEntry.sigOpCost).sum

theorem CTxMemPoolEntry.nTxWeight_le (entry : CTxMemPoolEntry) (nBytesPerSigOp : Nat) :
    entry.nTxWeight ≤ WITNESS_SCALE_FACTOR * entry.getTxSize nBytesPerSigOp := by
  have hmax := le_max_left entry.nTxWeight (entry.sigOpCost * nBytesPerSigOp)
  simp only [CTxMemPoolEntry.getTxSize, getVirtualTransactionSize, WITNESS_SCALE_FACTOR]
  omega

theorem sum_nTxWeight_le (nBytesPerSigOp : Nat) : ∀ entries : List CTxMemPoolEntry,
    (entries.map CTxMemPoolEntry.nTxWeight).sum ≤
      WITNESS_SCALE_FACTOR * (entries.map fun entry => entry.getTxSize nBytesPerSigOp).sum
  | [] => Nat.zero_le _
  | entry :: rest => by
    have hhead := entry.nTxWeight_le nBytesPerSigOp
    have hrest := sum_nTxWeight_le nBytesPerSigOp rest
    simp only [map_cons, sum_cons, Nat.mul_add]
    omega

namespace BlockAssembler

/-- Those of the entries and the reservation, within the limits. -/
structure Counts (a : BlockAssembler) : Prop where
  weight : a.nBlockWeight = 4000 + (a.inBlock.map CTxMemPoolEntry.nTxWeight).sum
  sigOps : a.nBlockSigOpsCost = 400 + (a.inBlock.map CTxMemPoolEntry.sigOpCost).sum
  weight_le : a.nBlockWeight ≤ a.nBlockMaxWeight
  sigOps_le : a.nBlockSigOpsCost ≤ MAX_BLOCK_SIGOPS_COST

theorem addEntries (entries : List CTxMemPoolEntry) : ∀ a : BlockAssembler,
    entries.foldl addToBlock a =
      { a with
        inBlock := a.inBlock ++ entries
        nBlockWeight := a.nBlockWeight + (entries.map CTxMemPoolEntry.nTxWeight).sum
        nBlockSigOpsCost := a.nBlockSigOpsCost + (entries.map CTxMemPoolEntry.sigOpCost).sum
        nFees := a.nFees + (entries.map CTxMemPoolEntry.nFee).sum } := by
  induction entries with
  | nil => intro a; simp
  | cons entry rest ih =>
    intro a
    rw [foldl_cons, ih]
    simp [addToBlock, Nat.add_assoc, Int.add_assoc]

variable {coinsOf : CTransaction → List Coin} {flags : ScriptFlags} {nBytesPerSigOp : Nat}

theorem Counts.addPackage {a : BlockAssembler} (ha : a.Counts) {package : Package}
    (hcorrect : package.Correct coinsOf flags nBytesPerSigOp) : (a.addPackage package).Counts := by
  unfold BlockAssembler.addPackage
  split
  · exact ha
  rename_i htest
  split
  · exact ha
  have hweights := sum_nTxWeight_le nBytesPerSigOp package.entries
  simp only [testPackage, Bool.not_eq_true', Bool.and_eq_false_iff, decide_eq_false_iff_not,
    not_or, Decidable.not_not, hcorrect.packageSize, hcorrect.packageSigOpsCost] at htest
  rw [addEntries]
  constructor
  · simp only [map_append, sum_append, ha.weight]
    omega
  · simp only [map_append, sum_append, ha.sigOps]
    omega
  · show a.nBlockWeight + _ ≤ a.nBlockMaxWeight
    omega
  · show a.nBlockSigOpsCost + _ ≤ MAX_BLOCK_SIGOPS_COST
    omega

theorem Counts.addPackageTxs {packages : List Package} : ∀ {a : BlockAssembler}, a.Counts →
    (∀ package ∈ packages, package.Correct coinsOf flags nBytesPerSigOp) →
      (a.addPackageTxs packages).Counts := by
  induction packages with
  | nil => intro a ha _; exact ha
  | cons package rest ih =>
    intro a ha hcorrect
    apply ih (ha.addPackage (hcorrect package mem_cons_self))
    exact (forall_mem_cons.mp hcorrect).2

theorem mem_addPackageTxs {packages : List Package} {entry : CTxMemPoolEntry} :
    ∀ {a : BlockAssembler}, entry ∈ (a.addPackageTxs packages).inBlock →
      entry ∈ a.inBlock ∨ ∃ package ∈ packages, a.testPackageTransactions package.entries = true ∧
        entry ∈ package.entries := by
  induction packages with
  | nil => intro a h; exact .inl h
  | cons package rest ih =>
    intro a h
    -- the tests read nothing that adding an entry changes
    have hsame : ∀ entries, (a.addPackage package).testPackageTransactions entries =
        a.testPackageTransactions entries := by
      intro entries
      unfold addPackage
      split
      · rfl
      split
      · rfl
      rw [addEntries]
      rfl
    rcases ih h with hmem | ⟨p, hp, htest, hentry⟩
    · unfold addPackage at hmem
      split at hmem
      · exact .inl hmem
      split at hmem
      · exact .inl hmem
      rename_i htest
      rw [addEntries] at hmem
      rcases mem_append.mp hmem with hmem | hmem
      · exact .inl hmem
      · exact .inr ⟨package, mem_cons_self, by simpa using htest, hmem⟩
    · exact .inr ⟨p, mem_cons_of_mem _ hp, hsame _ ▸ htest, hentry⟩

end BlockAssembler

/-! ### Sizes -/

theorem length_serializeVector (elements : List Bytes) :
    (serializeVector elements).length =
      sizeOfCompactSize elements.length + (elements.map List.length).sum := by
  simp [serializeVector, length_flatten]

theorem CTransaction.weight_eq_sum : ∀ vtx : List CTransaction,
    (vtx.map getTransactionWeight).sum =
      (vtx.map CTransaction.strippedSize).sum * (WITNESS_SCALE_FACTOR - 1) +
        (vtx.map CTransaction.totalSize).sum
  | [] => rfl
  | tx :: rest => by
    have hrest := CTransaction.weight_eq_sum rest
    simp only [map_cons, sum_cons, getTransactionWeight, Nat.add_mul]
    omega

def outputSize (script : CScript) : Nat := 8 + sizeOfCompactSize script.length + script.length

theorem CTxOut.length_serialize (txout : CTxOut) :
    txout.serialize.length = outputSize txout.scriptPubKey := by
  simp [CTxOut.serialize, serializeInt64, serializeBytes, outputSize]
  omega

theorem CTransaction.strippedSize_eq (tx : CTransaction) :
    tx.strippedSize = 8 + sizeOfCompactSize tx.vin.length +
      (tx.vin.map fun txin => txin.serialize.length).sum + sizeOfCompactSize tx.vout.length +
      (tx.vout.map fun txout => outputSize txout.scriptPubKey).sum := by
  simp only [CTransaction.strippedSize, CTransaction.serialize, Bool.false_and,
    Bool.false_eq_true, if_false, length_append, leBytes_length, length_serializeVector,
    map_map, length_map, Function.comp_def, CTxOut.length_serialize, length_nil]
  omega

theorem CTransaction.totalSize_eq (tx : CTransaction) :
    tx.totalSize = tx.strippedSize +
      if tx.hasWitness then 2 + tx.serializeWitness.length else 0 := by
  simp only [CTransaction.totalSize, CTransaction.strippedSize, CTransaction.serialize,
    Bool.false_and, Bool.true_and, Bool.false_eq_true, if_false, length_append,
    length_nil]
  split
  · simp only [length_cons, length_nil]
    omega
  · rfl

def coinbaseWeight (nHeight : Nat) (scripts : List CScript) (commits reserves : Bool) : Nat :=
  let scriptSigSize := (pushInt nHeight).length + 1
  let outputs := scripts.length + if commits then 1 else 0
  WITNESS_SCALE_FACTOR *
      (4 + 1 + (36 + sizeOfCompactSize scriptSigSize + scriptSigSize + 4) +
        sizeOfCompactSize outputs + (scripts.map outputSize).sum +
        (if commits then 47 else 0) + 4) +
    if reserves then 36 else 0

/-! ### Signature operations of the coinbase -/

theorem scriptOps_push (data rest : Bytes) (hlength : data.length < 76) :
    scriptOps (UInt8.ofNat data.length :: (data ++ rest)) =
      ((UInt8.ofNat data.length, data) :: (scriptOps rest).1, (scriptOps rest).2) := by
  have hsize : (UInt8.ofNat data.length).toNat = data.length :=
    toNat_ofNat_of_lt (by omega)
  have hpush : UInt8.ofNat data.length < OP_PUSHDATA1 := by
    rw [UInt8.lt_iff_toNat_lt, hsize]
    exact hlength
  exact scriptOps_cons (getScriptOp_push hpush hsize.symm rest)

theorem magnitudeBytes_length : ∀ fuel absvalue, (magnitudeBytes fuel absvalue).length ≤ fuel
  | 0, _ => Nat.le_refl _
  | fuel + 1, absvalue => by
    have hrest := magnitudeBytes_length fuel (absvalue / 256)
    unfold magnitudeBytes
    split
    · exact Nat.zero_le _
    · simp only [length_cons]
      omega

theorem scriptNumSerialize_length (value : Nat) : (scriptNumSerialize value).length ≤ 9 := by
  have h := magnitudeBytes_length 8 value
  simp only [scriptNumSerialize]
  split
  · split
    · simp only [length_append, length_singleton]
      omega
    · omega
  · exact Nat.zero_le _

theorem getSigOpCount_heightScript (nHeight : Nat) :
    getSigOpCount (pushInt nHeight ++ [OP_0]) false = 0 := by
  unfold pushInt
  split
  · rename_i hsmall
    obtain ⟨hlow, hhigh⟩ := hsmall
    interval_cases nHeight <;> decide
  split
  · decide
  · have hlength := scriptNumSerialize_length nHeight
    rw [getSigOpCount, cons_append, scriptOps_push _ _ (by omega)]
    have hop : sigOpsOf false OP_INVALIDOPCODE
        (UInt8.ofNat (scriptNumSerialize nHeight).length) = 0 := by
      generalize (scriptNumSerialize nHeight).length = length at hlength
      interval_cases length <;> decide
    have hrest : (scriptOps [OP_0]).1 = [(OP_0, [])] := by decide
    simp only [hrest, foldl_cons, foldl_nil, hop]
    rfl

theorem getSigOpCount_commitmentScript (commitment : UInt256) :
    getSigOpCount (commitmentScript commitment) false = 0 := by
  have hdata : commitmentScript commitment =
      OP_RETURN :: (UInt8.ofNat ([0xaa, 0x21, 0xa9, 0xed] ++ serializeUInt256 commitment).length ::
        (([0xaa, 0x21, 0xa9, 0xed] ++ serializeUInt256 commitment) ++ [])) := by
    simp [commitmentScript, serializeUInt256]
  have hlength : ([0xaa, 0x21, 0xa9, 0xed] ++ serializeUInt256 commitment).length = 36 := by
    simp [serializeUInt256]
  have hfirst : ∀ rest : CScript, getScriptOp (OP_RETURN :: rest) = some (OP_RETURN, [], rest) :=
    fun _ => rfl
  rw [getSigOpCount, hdata, scriptOps_eq _ (cons_ne_nil _ _), hfirst]
  dsimp only
  rw [scriptOps_push _ _ (by omega), hlength]
  rfl

theorem getLegacySigOpCount_templateCoinbase (E : NodeEnv) (pindexPrev : CBlockIndex)
    (vout : List CTxOut) (commitment : UInt256) :
    getLegacySigOpCount (E.templateCoinbase pindexPrev vout commitment) =
      (vout.map fun txout => getSigOpCount txout.scriptPubKey false).sum := by
  simp only [getLegacySigOpCount, NodeEnv.templateCoinbase, map_cons, map_nil,
    sum_cons, sum_nil, getSigOpCount_heightScript, map_append, sum_append]
  split
  · simp [getSigOpCount_commitmentScript]
  · simp

namespace NodeEnv

variable (E : NodeEnv)

theorem length_serializeBlock (block : CBlock) (fAllowWitness : Bool) :
    (block.serialize (E.pop.encode block.popData) fAllowWitness).length =
      80 + sizeOfCompactSize block.vtx.length +
        (block.vtx.map fun tx => (tx.serialize fAllowWitness).length).sum +
        if block.header.hasPopBit then (serializeBytes (E.pop.encode block.popData)).length
        else 0 := by
  simp only [CBlock.serialize, length_append, CBlockHeader.serialize_length,
    length_serializeVector, length_map, map_map, Function.comp_def]
  split <;> simp <;> omega

theorem getBlockWeight_eq (block : CBlock) :
    E.getBlockWeight block =
      ((WITNESS_SCALE_FACTOR * (80 + sizeOfCompactSize block.vtx.length) +
        (block.vtx.map getTransactionWeight).sum : Nat) : Int) -
      if block.header.hasPopBit then 0 else (E.getPopDataWeight block.popData : Int) := by
  have hweight := CTransaction.weight_eq_sum block.vtx
  have hstripped : (block.vtx.map fun tx => (tx.serialize false).length).sum =
      (block.vtx.map CTransaction.strippedSize).sum := rfl
  have htotal : (block.vtx.map fun tx => (tx.serialize true).length).sum =
      (block.vtx.map CTransaction.totalSize).sum := rfl
  rw [getBlockWeight, E.length_serializeBlock, E.length_serializeBlock, hstripped, htotal, hweight,
    getPopDataWeight]
  simp only [WITNESS_SCALE_FACTOR]
  split <;> push_cast <;> omega

theorem getTransactionWeight_templateCoinbase (pindexPrev : CBlockIndex) (vout : List CTxOut)
    (commitment : UInt256) :
    getTransactionWeight (E.templateCoinbase pindexPrev vout commitment) =
      coinbaseWeight (pindexPrev.nHeight + 1) (vout.map CTxOut.scriptPubKey) (E.commits vout)
        (E.reserves vout pindexPrev) := by
  have hcommitment : outputSize (commitmentScript commitment) = 47 := by
    simp [outputSize, commitmentScript, serializeUInt256, sizeOfCompactSize]
  have hnonce : (serializeVector [serializeBytes templateNonce]).length = 34 := by
    simp [length_serializeVector, serializeBytes, templateNonce, sizeOfCompactSize]
  have hwitness : (E.templateCoinbase pindexPrev vout commitment).hasWitness =
      E.reserves vout pindexPrev := by
    cases h : E.reserves vout pindexPrev <;> simp [templateCoinbase, CTransaction.hasWitness, h]
  have htotal : (E.templateCoinbase pindexPrev vout commitment).totalSize =
      (E.templateCoinbase pindexPrev vout commitment).strippedSize +
        if E.reserves vout pindexPrev then 36 else 0 := by
    rw [CTransaction.totalSize_eq, hwitness]
    congr 1
    split
    · rename_i hreserves
      simp [CTransaction.serializeWitness, templateCoinbase, hreserves, hnonce]
    · rfl
  have hstripped : (E.templateCoinbase pindexPrev vout commitment).strippedSize =
      4 + 1 + (36 + sizeOfCompactSize ((pushInt (pindexPrev.nHeight + 1)).length + 1) +
        ((pushInt (pindexPrev.nHeight + 1)).length + 1) + 4) +
      sizeOfCompactSize (vout.length + if E.commits vout then 1 else 0) +
      ((vout.map CTxOut.scriptPubKey).map outputSize).sum +
      (if E.commits vout then 47 else 0) + 4 := by
    have hone : sizeOfCompactSize 1 = 1 := rfl
    rw [CTransaction.strippedSize_eq]
    cases hcommits : E.commits vout <;>
      simp [templateCoinbase, hcommits, CTxIn.serialize, COutPoint.serialize, serializeUInt256,
        serializeBytes, hone, hcommitment, Function.comp_def] <;>
      omega
  rw [getTransactionWeight, htotal, hstripped, coinbaseWeight, length_map]
  simp only [WITNESS_SCALE_FACTOR]
  omega

/-! ### The limits -/

/-- The sigops of a block, as `ConnectBlock` adds them up. -/
def blockSigOpsCost (coinsOf : CTransaction → List Coin) (flags : ScriptFlags) (block : CBlock) :
    Nat :=
  (block.vtx.map fun tx =>
    if tx.isCoinBase then getLegacySigOpCount tx * WITNESS_SCALE_FACTOR
    else sigOpCostOf tx (coinsOf tx) flags).sum

/-- **The consensus limits** on a block's resources. -/
def WithinLimits (coinsOf : CTransaction → List Coin) (flags : ScriptFlags) (block : CBlock) :
    Prop :=
  E.getBlockWeight block ≤ MAX_BLOCK_WEIGHT ∧
    blockSigOpsCost coinsOf flags block ≤ MAX_BLOCK_SIGOPS_COST

def coinbaseScripts (nHeight : Nat) (scriptPubKeyIn : CScript) (rewards : PoPRewards) :
    List CScript :=
  scriptPubKeyIn ::
    if E.isPopActive nHeight then rewards.entries.map Prod.fst else []

def commitsTo (scripts : List CScript) : Bool :=
  E.consensus.SegwitHeight != INT_MAX && !scripts.any isWitnessCommitment

def reservesFor (scripts : List CScript) (pindexPrev : CBlockIndex) : Bool :=
  (scripts.any isWitnessCommitment || E.commitsTo scripts) && E.isWitnessEnabled (some pindexPrev)

/-- Header and coinbase with `nTx` transactions, less what is taken off for PoP data that is not
    carried. -/
def overhead (context : TemplateContext) (pindexPrev : CBlockIndex) (scripts : List CScript)
    (nTx : Nat) : Int :=
  let pop := E.templatePop context (pindexPrev.nHeight + 1)
  (WITNESS_SCALE_FACTOR * (80 + sizeOfCompactSize (nTx + 1)) +
    coinbaseWeight (pindexPrev.nHeight + 1) scripts (E.commitsTo scripts)
      (E.reservesFor scripts pindexPrev) : Nat) -
    if pop.2.toBitVec.getLsbD 19 then 0 else (E.getPopDataWeight pop.1 : Int)

theorem templateOutputs_scripts (nHeight : Nat) (scriptPubKeyIn : CScript) (nFees : Int)
    (rewards : PoPRewards) :
    (E.templateOutputs nHeight scriptPubKeyIn nFees rewards).map CTxOut.scriptPubKey =
      E.coinbaseScripts nHeight scriptPubKeyIn rewards := by
  unfold templateOutputs coinbaseScripts
  split <;> simp

theorem hasCommitment_eq (vout : List CTxOut) :
    hasCommitment vout = (vout.map CTxOut.scriptPubKey).any isWitnessCommitment := by
  simp [hasCommitment, any_map, Function.comp_def]

section Selection

variable {coinsOf : CTransaction → List Coin} {flags : ScriptFlags} {nBytesPerSigOp : Nat}
  (context : TemplateContext) (pindexPrev : CBlockIndex) (scriptPubKeyIn : CScript)
  {packages : List Package} (rewards : PoPRewards)
  (hcorrect : ∀ package ∈ packages, package.Correct coinsOf flags nBytesPerSigOp)

include hcorrect

theorem selectTxs_counts : (E.selectTxs context pindexPrev packages).Counts := by
  refine BlockAssembler.Counts.addPackageTxs ?_ hcorrect
  constructor
  · rfl
  · rfl
  · exact le_max_left _ _
  · show 400 ≤ MAX_BLOCK_SIGOPS_COST
    decide

theorem mem_selectTxs
    {entry : CTxMemPoolEntry} (hentry : entry ∈ (E.selectTxs context pindexPrev packages).inBlock) :
    ∃ package ∈ packages, package.Correct coinsOf flags nBytesPerSigOp ∧
      entry ∈ package.entries := by
  rcases BlockAssembler.mem_addPackageTxs hentry with hmem | ⟨package, hpackage, -, hmem⟩
  · exact absurd hmem not_mem_nil
  · exact ⟨package, hpackage, hcorrect package hpackage, hmem⟩

theorem getBlockWeight_templateBlock :
    E.getBlockWeight (E.templateBlock context pindexPrev scriptPubKeyIn packages rewards) =
      E.overhead context pindexPrev
          (E.coinbaseScripts (pindexPrev.nHeight + 1) scriptPubKeyIn rewards)
          (E.selectTxs context pindexPrev packages).inBlock.length +
        ((E.selectTxs context pindexPrev packages).nBlockWeight - 4000) := by
  have hweights : ((E.selectTxs context pindexPrev packages).inBlock.map
      CTxMemPoolEntry.tx).map getTransactionWeight =
      (E.selectTxs context pindexPrev packages).inBlock.map CTxMemPoolEntry.nTxWeight := by
    rw [map_map]
    apply map_congr_left
    intro entry hentry
    obtain ⟨package, -, hpackage, hmem⟩ := E.mem_selectTxs context pindexPrev hcorrect hentry
    exact (hpackage.weight entry hmem).symm
  have hcount := (E.selectTxs_counts context pindexPrev hcorrect).weight
  rw [getBlockWeight_eq, overhead]
  simp only [templateBlock, map_cons, sum_cons, length_cons, length_map,
    getTransactionWeight_templateCoinbase, templateOutputs_scripts, commits, reserves, commitsTo,
    reservesFor, hasCommitment_eq, hweights, hcount, CBlockHeader.hasPopBit]
  push_cast
  by_cases hbit : (E.templatePop context (pindexPrev.nHeight + 1)).2.toBitVec.getLsbD 19 = true
  · simp only [hbit, if_true]
    ring
  · simp only [hbit, Bool.false_eq_true, if_false]
    ring

theorem blockSigOpsCost_templateBlock :
    blockSigOpsCost coinsOf flags
        (E.templateBlock context pindexPrev scriptPubKeyIn packages rewards) + 400 =
      ((E.coinbaseScripts (pindexPrev.nHeight + 1) scriptPubKeyIn rewards).map
          fun script => getSigOpCount script false).sum * WITNESS_SCALE_FACTOR +
        (E.selectTxs context pindexPrev packages).nBlockSigOpsCost := by
  have hcosts : ((E.selectTxs context pindexPrev packages).inBlock.map
      CTxMemPoolEntry.tx).map (fun tx =>
        if tx.isCoinBase then getLegacySigOpCount tx * WITNESS_SCALE_FACTOR
        else sigOpCostOf tx (coinsOf tx) flags) =
      (E.selectTxs context pindexPrev packages).inBlock.map CTxMemPoolEntry.sigOpCost := by
    rw [map_map]
    apply map_congr_left
    intro entry hentry
    obtain ⟨package, -, hpackage, hmem⟩ := E.mem_selectTxs context pindexPrev hcorrect hentry
    simp only [Function.comp_apply, hpackage.notCoinBase entry hmem, Bool.false_eq_true, if_false]
    exact (hpackage.sigOps entry hmem).symm
  have hcoinbase : ∀ (vout : List CTxOut) (commitment : UInt256),
      (E.templateCoinbase pindexPrev vout commitment).isCoinBase = true := fun _ _ => rfl
  have hcount := (E.selectTxs_counts context pindexPrev hcorrect).sigOps
  have hscripts : ∀ nFees, (E.templateOutputs (pindexPrev.nHeight + 1) scriptPubKeyIn nFees
      rewards).map (fun txout => getSigOpCount txout.scriptPubKey false) =
      (E.coinbaseScripts (pindexPrev.nHeight + 1) scriptPubKeyIn rewards).map
        fun script => getSigOpCount script false := by
    intro nFees
    rw [← E.templateOutputs_scripts _ _ nFees, map_map]
    rfl
  simp only [blockSigOpsCost, templateBlock, map_cons, sum_cons, hcosts, hcoinbase,
    if_true, getLegacySigOpCount_templateCoinbase, hscripts, hcount]
  ring

end Selection

end NodeEnv

namespace Regtest

def popTip : CBlockIndex := ⟨⟨1, 1631200000⟩, List.replicate 200 ⟨0, 1631200000⟩⟩

theorem popTip_nHeight : popTip.nHeight = 200 := length_replicate

variable (script : CScript)

def payingEnv : NodeEnv :=
  { env with pop := { pop with getPopPayout := fun _ => some [(script, 100000000)] } }

def oneReward : PoPRewards := OrderedMap.empty.insert scriptLess script 350000000

theorem oneReward_due : (payingEnv script).getPopRewards popTip = .ok (oneReward script) := by
  have hpayout : (payingEnv script).popPayout popTip 100000000 = 350000000 := by
    rw [NodeEnv.popPayout, popTip_nHeight]
    show 100000000 * (env.getSubsidyMultiplier 201).toNat / 2 / COIN.toNat = 350000000
    decide
  simp only [NodeEnv.getPopRewards, popTip_nHeight]
  show [(script, 100000000)].foldlM ((payingEnv script).addReward popTip) OrderedMap.empty = _
  simp only [foldlM_cons, foldlM_nil, NodeEnv.addReward, hpayout]
  rfl

def noContext : NodeEnv.TemplateContext where
  nVersion := 4
  nTime := 1631300000
  nBits := 0x207fffff
  popData := {}
  nBlockMaxWeight := 4000000
  nLockTimeCutoff := 1631200000

variable (n : Nat)

def sigOpsScript : CScript := List.replicate n OP_CHECKMULTISIG

theorem scriptOps_sigOpsScript : ∀ n,
    scriptOps (sigOpsScript n) = (List.replicate n (OP_CHECKMULTISIG, []), true)
  | 0 => rfl
  | n + 1 => by
    have hop : getScriptOp (sigOpsScript (n + 1)) = some (OP_CHECKMULTISIG, [], sigOpsScript n) :=
      rfl
    rw [scriptOps_eq (sigOpsScript (n + 1)) (cons_ne_nil _ _), hop]
    simp only [scriptOps_sigOpsScript n]
    rfl

theorem getSigOpCount_sigOpsScript : getSigOpCount (sigOpsScript n) false = 20 * n := by
  have hfold : ∀ (n count : Nat) (lastOpcode : UInt8),
      ((List.replicate n (OP_CHECKMULTISIG, ([] : Bytes))).foldl
        (fun s op => (s.1 + sigOpsOf false s.2 op.1, op.1)) (count, lastOpcode)).1 =
          count + 20 * n := by
    intro n
    induction n with
    | zero => intro count lastOpcode; rfl
    | succ n ih =>
      intro count lastOpcode
      have hop : sigOpsOf false lastOpcode OP_CHECKMULTISIG = 20 := rfl
      rw [replicate_succ, foldl_cons]
      dsimp only
      rw [ih, hop]
      omega
  rw [getSigOpCount, scriptOps_sigOpsScript]
  exact (hfold n 0 OP_INVALIDOPCODE).trans (Nat.zero_add _)

def sigOpsEnv : NodeEnv := payingEnv (sigOpsScript n)

def anyFlags : ScriptFlags := ⟨true, true, false, false, false, false⟩

theorem noPackages_correct (package : Package) (h : package ∈ ([] : List Package)) :
    package.Correct (fun _ => []) anyFlags 20 := absurd h not_mem_nil

theorem sigOpsEnv_template :
    (sigOpsEnv n).createNewBlock noContext popTip [OP_1] [] =
      .ok ((sigOpsEnv n).templateBlock noContext popTip [OP_1] [] (oneReward (sigOpsScript n))) := by
  rw [(sigOpsEnv n).createNewBlock_eq_ok fun _ => oneReward_due (sigOpsScript n), popTip_nHeight]
  refine ⟨⟨350000000, ?_⟩, rfl⟩
  show addAmount 0 (env.getBlockSubsidy 201) = .ok 350000000
  decide

theorem blockSigOpsCost_sigOpsEnv :
    NodeEnv.blockSigOpsCost (fun _ => []) anyFlags
      ((sigOpsEnv n).templateBlock noContext popTip [OP_1] [] (oneReward (sigOpsScript n))) = 80 * n := by
  have hcost := (sigOpsEnv n).blockSigOpsCost_templateBlock noContext popTip [OP_1]
    (oneReward (sigOpsScript n)) noPackages_correct
  have hscripts : (sigOpsEnv n).coinbaseScripts (popTip.nHeight + 1) [OP_1] (oneReward (sigOpsScript n)) =
      [[OP_1], sigOpsScript n] := by
    rw [popTip_nHeight]
    rfl
  have hone : getSigOpCount [OP_1] false = 0 := by decide
  have hcount : ((sigOpsEnv n).selectTxs noContext popTip []).nBlockSigOpsCost = 400 := rfl
  have hfactor : WITNESS_SCALE_FACTOR = 4 := rfl
  simp only [hscripts, map_cons, map_nil, sum_cons, sum_nil, hone,
    getSigOpCount_sigOpsScript, hcount, hfactor] at hcost
  omega

def onePayment : CTransaction where
  vin := [{ prevout := ⟨1, 0⟩, scriptSig := [OP_1], nSequence := 0xffffffff }]
  vout := [⟨1000, [OP_1]⟩]

def onePackage : Package where
  entries := [⟨onePayment, 200, getTransactionWeight onePayment, 0⟩]
  packageSize := 62
  packageSigOpsCost := 0

theorem onePackage_correct (package : Package) (h : package ∈ [onePackage]) :
    package.Correct (fun _ => []) anyFlags 20 := by
  obtain rfl := mem_singleton.mp h
  constructor <;> decide

end Regtest

end VBitcoin
